import Kiban.Org.Operations

/-!
# The user bridge

A member reaches what it holds through the tuple `member:m#mapped_user @ user:<kcSub>`.  The member's row
links to one account at a time; the tuples are one for each account.
-/

namespace Kiban.Org

open Transactions OrgTx Fallible Keyed.Table Option

def Database.linkedSub (s : Database) (memberId : Uuid) : Option String :=
  (s.members.get? memberId).bind fun row =>
    row.userId.bind fun userId => (s.accounts.get? userId).map Account.kcSub

namespace UserBridge

/-- The bridge tuples are exactly the links. -/
def Bridged (s : Database) : Prop :=
  ∀ memberId kcSub, mappedUserTuple memberId kcSub ∈ s.authz.tuple ↔ s.linkedSub memberId = some kcSub

def Named (s : Database) : Prop := ∀ memberId, s.linkedSub memberId ≠ some ""

inductive Call where
  | createMember (id : Uuid) (actor : String) (companyId : Uuid) (code displayName email : String)
      (isActive isGuest : Bool)
  | linkUser (actor : String) (confirmed : Bool) (memberId : Uuid) (kcSub : String)
  | unlinkUser (actor : String) (memberId : Uuid)

def prog : Call → OrgTx Unit
  | .createMember id actor companyId code displayName email isActive isGuest =>
    call (Org.createMember id actor companyId code displayName email isActive isGuest)
  | .linkUser actor confirmed memberId kcSub => call (Org.linkUser actor confirmed memberId kcSub)
  | .unlinkUser actor memberId => call (Org.unlinkUser actor memberId)

def step (s : Database) (c : Call) : Option Database := commit s (prog c)

/-- The call links no member that is linked to another account. -/
def KeepsLink (s : Database) : Call → Prop
  | .linkUser _ _ memberId kcSub => ∀ u, s.linkedSub memberId = some u → u = kcSub
  | _ => True

/-! ## What the calls do -/

section Effects

variable {s s' : Database} {actor : String} {memberId : Uuid} {kcSub : String} {m : Member}

theorem linkedSub_insertMember {id} (row : MemberRow) (hnew : s.members.get? id = none)
    (hrow : row.userId = none) (memberId : Uuid) :
    (s.apply (.insertMember id row)).linkedSub memberId = s.linkedSub memberId := by
  unfold Database.linkedSub
  simp only [Database.apply, get?_insertMissing]
  by_cases heq : memberId = id
  · simp [heq, hnew, hrow]
  · simp [heq]

theorem linkedSub_setMemberUser (userId : Option Uuid) {row}
    (hrow : s.members.get? memberId = some row) (memberId' : Uuid) :
    (s.apply (.setMemberUser memberId userId)).linkedSub memberId' =
      if memberId' = memberId then userId.bind fun u => (s.accounts.get? u).map Account.kcSub
      else s.linkedSub memberId' := by
  unfold Database.linkedSub
  simp only [Database.apply, get?_modify]
  by_cases heq : memberId' = memberId
  · simp [heq, hrow, MemberRow.setUser]
  · simp [heq]

theorem createMember_run {id companyId code displayName email isActive isGuest}
    (h : (Org.createMember id actor companyId code displayName email isActive isGuest).run Database.apply s =
      .ok (m, s')) :
    (∀ memberId, s'.linkedSub memberId = s.linkedSub memberId) ∧
      ∀ t, t ≠ companyMemberTuple companyId id → (t ∈ s'.authz.tuple ↔ t ∈ s.authz.tuple) := by
  unfold Org.createMember insertMember at h
  simp only [Prog.run_bind_eq_ok, Prog.run_ofExcept_eq_ok, run_write, run_whenever, run_audit] at h
  obtain ⟨_, _, ⟨_, rfl⟩, _, _, ⟨_, rfl⟩, _, s₁, ⟨hrfs, rfl⟩, _, s₂, hgrant, _, _, rfl, hret⟩ := h
  cases hret
  have hlink := linkedSub_insertMember
    ⟨companyId, normalizeCode code, trimSpace displayName, strOrNil email, none, isActive, isGuest⟩
    (Database.checkInsertMember_eq_ok hrfs) rfl
  rcases hgrant with ⟨_, hgrant⟩ | ⟨_, rfl⟩
  · obtain ⟨z, rfl, _, hmem⟩ := run_grant hgrant
    exact ⟨hlink, fun t ht => (hmem t).trans (or_iff_left ht)⟩
  · exact ⟨hlink, fun t _ => Iff.rfl⟩

theorem linkUser_run {confirmed}
    (h : (Org.linkUser actor confirmed memberId kcSub).run Database.apply s = .ok (m, s')) :
    kcSub ≠ "" ∧ (∀ m', s'.linkedSub m' = if m' = memberId then some kcSub else s.linkedSub m') ∧
      ∀ t, t ∈ s'.authz.tuple ↔ t ∈ s.authz.tuple ∨ t = mappedUserTuple memberId kcSub := by
  unfold Org.linkUser getMember linkMemberUser setMemberUser at h
  simp only [Prog.run_bind_eq_ok, run_failIf, run_get, run_update, run_audit] at h
  obtain ⟨_, _, ⟨_, rfl⟩, account, _, ⟨hfind, rfl⟩, _, _, ⟨_, rfl⟩, _, _, ⟨row, hrow, _, _, rfl⟩, _, _, hgrant,
    _, _, rfl, hret⟩ := h
  cases hret
  have hsub : account.2.kcSub = kcSub := by simpa using List.find?_some hfind
  have hacc : s.accounts.get? account.1 = some account.2 :=
    get?_eq_some_iff.mpr (List.mem_of_find?_eq_some hfind)
  obtain ⟨z, rfl, hfie, hmem⟩ := run_grant hgrant
  rw [hsub] at hfie hmem
  refine ⟨fun hempty => hfie (by simp [Tuple.HasEmptyField, mappedUserTuple, hempty]), fun m' => ?_, hmem⟩
  refine (linkedSub_setMemberUser (some account.1) hrow m').trans ?_
  rw [bind_some, hacc, map_some, hsub]

theorem memberFromJoinRow_userId (row : MemberRow) (user : Option Account) :
    (memberFromJoinRow memberId row user).userId = row.userId := by
  cases user with
  | none | some a => rfl

theorem memberFromJoinRow_userKcSub (row : MemberRow) (user : Option Account) :
    (memberFromJoinRow memberId row user).userKcSub = (user.map Account.kcSub).getD "" := by
  cases user with
  | none | some a => rfl

theorem linkedSub_of_row {row} (hrow : s.members.get? memberId = some row) :
    s.linkedSub memberId = (row.userId.bind fun u => s.accounts.get? u).map Account.kcSub := by
  unfold Database.linkedSub
  rw [hrow, bind_some, Option.map_bind]
  rfl

theorem unlinkUser_run (hnamed : Named s) (h : (Org.unlinkUser actor memberId).run Database.apply s = .ok (m, s')) :
    (∀ m', s'.linkedSub m' = if m' = memberId then none else s.linkedSub m') ∧ ∀ t, t ∈ s'.authz.tuple ↔
        t ∈ s.authz.tuple ∧ ∀ u, s.linkedSub memberId = some u → t ≠ mappedUserTuple memberId u := by
  unfold Org.unlinkUser getMemberWithUser unlinkMemberUser setMemberUser at h
  simp only [Prog.run_bind_eq_ok, run_get, run_update, run_whenever, run_audit] at h
  obtain ⟨before, _, ⟨hbef, rfl⟩, _, _, ⟨row, hrow, _, _, rfl⟩, _, _, hrev, _, _, rfl, hret⟩ := h
  cases hret
  have hlink := linkedSub_setMemberUser none hrow
  rw [hrow, map_some] at hbef
  obtain rfl := Option.some.inj hbef
  rw [memberFromJoinRow_userId, memberFromJoinRow_userKcSub, ← linkedSub_of_row hrow] at hrev
  cases hsub : s.linkedSub memberId with
  | none =>
    rw [hsub] at hrev
    rcases hrev with ⟨⟨_, hne⟩, _⟩ | ⟨_, rfl⟩
    · exact absurd rfl hne
    · refine ⟨hlink, fun t => (and_iff_left fun _ hu => ?_).symm⟩
      cases hu
  | some u =>
    rw [hsub] at hrev
    have huser : row.userId ≠ none := by
      intro hnone
      rw [linkedSub_of_row hrow, hnone] at hsub
      cases hsub
    rcases hrev with ⟨_, hrev⟩ | ⟨hnot, _⟩
    · obtain ⟨z, rfl, hmem⟩ := run_revoke hrev
      refine ⟨hlink, fun t => (hmem t).trans (and_congr_right fun _ => ?_)⟩
      exact ⟨fun hne v hv => Option.some.inj hv ▸ hne, fun hall => hall u rfl⟩
    · refine absurd ⟨huser, fun hempty => ?_⟩ hnot
      rw [getD_some] at hempty
      exact hnamed memberId (hempty ▸ hsub)

end Effects

theorem mappedUserTuple_inj {memberId memberId' u u'}
    (h : mappedUserTuple memberId u = mappedUserTuple memberId' u') :
    memberId = memberId' ∧ u = u' :=
  ⟨congrArg Tuple.objectId h, congrArg Tuple.subjectId h⟩

theorem mappedUserTuple_ne_companyMemberTuple (memberId id companyId : Uuid) (u : String) :
    mappedUserTuple memberId u ≠ companyMemberTuple companyId id := fun h =>
  absurd (congrArg Tuple.objectType h) (by decide : "member" ≠ "company")

/-! ## The bridge over a run -/

theorem named_step {s s' c} (hnamed : Named s) (h : step s c = some s') : Named s' := by
  intro memberId
  cases c with
  | createMember id actor companyId code displayName email isActive isGuest =>
    obtain ⟨m, hm⟩ := commit_call.mp h
    rw [(createMember_run hm).1]
    exact hnamed memberId
  | linkUser actor confirmed id kcSub =>
    obtain ⟨m, hm⟩ := commit_call.mp h
    obtain ⟨hne, hlink, _⟩ := linkUser_run hm
    rw [hlink]
    split
    · exact fun heq => hne (Option.some.inj heq)
    · exact hnamed memberId
  | unlinkUser actor id =>
    obtain ⟨m, hm⟩ := commit_call.mp h
    rw [(unlinkUser_run hnamed hm).1]
    split
    · exact nofun
    · exact hnamed memberId

theorem bridged_link_iff {s s' memberId kcSub} (hbrg : Bridged s)
    (hlink : ∀ m', s'.linkedSub m' = if m' = memberId then some kcSub else s.linkedSub m')
    (hmem : ∀ t, t ∈ s'.authz.tuple ↔ t ∈ s.authz.tuple ∨ t = mappedUserTuple memberId kcSub) :
    Bridged s' ↔ ∀ u, s.linkedSub memberId = some u → u = kcSub := by
  constructor
  · intro hbrg' u hu
    have hin : mappedUserTuple memberId u ∈ s'.authz.tuple :=
      (hmem _).mpr (.inl ((hbrg memberId u).mpr hu))
    have hnow := (hbrg' memberId u).mp hin
    rw [hlink, if_pos rfl] at hnow
    exact (Option.some.inj hnow).symm
  · intro hkeeps m u
    rw [hmem, hbrg, hlink]
    by_cases heq : m = memberId
    · rw [heq, if_pos rfl]
      constructor
      · rintro (hold | hnew)
        · rw [hkeeps u hold]
        · rw [(mappedUserTuple_inj hnew).2]
      · intro hu
        rw [Option.some.inj hu]
        exact .inr rfl
    · rw [if_neg heq]
      exact or_iff_left fun hnew => heq (mappedUserTuple_inj hnew).1

theorem bridged_unlink {s s' memberId} (hbrg : Bridged s)
    (hlink : ∀ m', s'.linkedSub m' = if m' = memberId then none else s.linkedSub m')
    (hmem : ∀ t, t ∈ s'.authz.tuple ↔ t ∈ s.authz.tuple ∧ ∀ u, s.linkedSub memberId = some u →
      t ≠ mappedUserTuple memberId u) :
    Bridged s' := by
  intro m u
  rw [hmem, hbrg, hlink]
  by_cases heq : m = memberId
  · rw [heq, if_pos rfl]
    exact ⟨fun ⟨hu, hne⟩ => absurd rfl (hne u hu), nofun⟩
  · rw [if_neg heq]
    exact and_iff_left fun v _ hsame => heq (mappedUserTuple_inj hsame).1

theorem bridged_step_iff {s s' c} (hnamed : Named s) (hbrg : Bridged s) (h : step s c = some s') :
    Bridged s' ↔ KeepsLink s c := by
  cases c with
  | createMember id actor companyId code displayName email isActive isGuest =>
    obtain ⟨m, hm⟩ := commit_call.mp h
    obtain ⟨hlink, hmem⟩ := createMember_run hm
    refine iff_of_true (fun memberId u => ?_) trivial
    rw [hmem _ (mappedUserTuple_ne_companyMemberTuple memberId id companyId u), hlink]
    exact hbrg memberId u
  | linkUser actor confirmed memberId kcSub =>
    obtain ⟨m, hm⟩ := commit_call.mp h
    obtain ⟨_, hlink, hmem⟩ := linkUser_run hm
    exact bridged_link_iff hbrg hlink hmem
  | unlinkUser actor memberId =>
    obtain ⟨m, hm⟩ := commit_call.mp h
    obtain ⟨hlink, hmem⟩ := unlinkUser_run hnamed hm
    exact iff_of_true (bridged_unlink hbrg hlink hmem) trivial

/-- Along a run of calls the bridge tuples are the links all the time exactly when no call links a member
that is linked to another account. -/
theorem mappedUser_iff_linked {s₀ s : Database} (hnamed : Named s₀) (hbridged : Bridged s₀)
    (calls : List Call) (hrun : calls.foldlM step s₀ = some s) :
    (∀ pre post s', calls = pre ++ post → pre.foldlM step s₀ = some s' →
      ∀ memberId kcSub, mappedUserTuple memberId kcSub ∈ s'.authz.tuple ↔ s'.linkedSub memberId = some kcSub) ↔
      ∀ pre c post s', calls = pre ++ c :: post → pre.foldlM step s₀ = some s' → KeepsLink s' c :=
  Runs.foldlM_all_iff Named Bridged hnamed hbridged (fun _ _ _ hs => named_step hs)
    (fun _ _ _ hs hb => bridged_step_iff hs hb) calls hrun

theorem linkedSub_office (memberId : Uuid) : office.linkedSub memberId = none := rfl

theorem named_office : Named office := fun memberId => by
  rw [linkedSub_office]
  exact nofun

theorem bridged_office : Bridged office := fun memberId kcSub => by
  rw [linkedSub_office]
  exact ⟨nofun, nofun⟩

def hireMia : Call := .createMember "mia" "admin" "acme" "M1" "Mia" "" true false

def unlinked : List Call :=
  [hireMia, .linkUser "admin" true "mia" "alice", .unlinkUser "admin" "mia"]

theorem mappedUser_iff_linked_unlinked : ∃ s, unlinked.foldlM step office = some s ∧
      ((∀ pre post s', unlinked = pre ++ post → pre.foldlM step office = some s' →
        ∀ memberId kcSub, mappedUserTuple memberId kcSub ∈ s'.authz.tuple ↔ s'.linkedSub memberId = some kcSub) ↔
        ∀ pre c post s', unlinked = pre ++ c :: post → pre.foldlM step office = some s' → KeepsLink s' c) := by
  have hrun : (unlinked.foldlM step office).isSome = true := by decide +kernel
  obtain ⟨s, hs⟩ := isSome_iff_exists.mp hrun
  exact ⟨s, hs, mappedUser_iff_linked named_office bridged_office unlinked hs⟩

def relinked : List Call :=
  [hireMia, .linkUser "admin" true "mia" "alice", .linkUser "admin" true "mia" "bob"]

theorem relinked_keepsTuple : Bridged office ∧ ∃ s, relinked.foldlM step office = some s ∧
      mappedUserTuple "mia" "alice" ∈ s.authz.tuple ∧ s.linkedSub "mia" = some "bob" := by
  have hrun : (relinked.foldlM step office).map (fun s =>
      (decide (mappedUserTuple "mia" "alice" ∈ s.authz.tuple), s.linkedSub "mia")) =
        some (true, some "bob") := by decide +kernel
  obtain ⟨s, hs, hsees⟩ := map_eq_some_iff.mp hrun
  obtain ⟨htuple, hlink⟩ := Prod.mk.inj hsees
  exact ⟨bridged_office, s, hs, of_decide_eq_true htuple, hlink⟩

end UserBridge

end Kiban.Org
