import Kiban.Lib.RowLocks
import Kiban.Org.Operations

/-!
# Company membership

A member's row says whether it is active, and the tuple `company:c#member @ member:m#mapped_user` should say
the same.  `UpdateMember` reads the row, updates it, and goes by what it read to decide what to do to the
tuple.  The row is locked from the update on, not from the read on.
-/

namespace Kiban.Org.CompanyMembership

open Transactions OrgTx List Keyed.Table

inductive Call where
  | createMember (id : Uuid) (actor : String) (companyId : Uuid) (code displayName email : String)
      (isActive isGuest : Bool)
  | updateMember (id : Uuid) (actor displayName email : String) (isActive : Bool) (isGuest : Option Bool)

def prog : Call → OrgTx Unit
  | .createMember id actor companyId code displayName email isActive isGuest =>
    call (Org.createMember id actor companyId code displayName email isActive isGuest)
  | .updateMember id actor displayName email isActive isGuest =>
    call (Org.updateMember id actor displayName email isActive isGuest)

/-- The membership tuples are exactly the active rows. -/
def Projected (s : Database) : Prop :=
  ∀ companyId memberId, companyMemberTuple companyId memberId ∈ s.authz.tuple ↔
    ∃ row, s.members.get? memberId = some row ∧ row.companyId = companyId ∧ row.isActive = true

def memberRow (s : Database) (memberId : Uuid) : Option MemberRow := s.members.get? memberId

def memberActive (s : Database) (memberId : Uuid) : Option Bool :=
  (memberRow s memberId).map MemberRow.isActive

/-- An `UPDATE` that is to leave the row as active as it is finds it so. -/
def Stable : Option Stmt → Database → Database → Prop
  | some (.updateMember memberId isActive), c, c' =>
    memberActive c memberId = some isActive → memberActive c' memberId = some isActive
  | _, _, _ => True

abbrev St := State Database Write Lock Stmt OrgError Call

/-- No commit changes a member's active flag while another open update, which has read the row, is about to
write the value the flag has. -/
abbrev Undisturbed : St → Action Call → Prop := RowLocks.Undisturbed Stable schema

abbrev Rely : Option Stmt → Past → Database → Database → Prop := RowLocks.Rely memberRow Lock.member Stable

abbrev Settled : Uuid → Past → Database → Prop := RowLocks.Settled memberRow Lock.member schema Projected

/-! ## What the writes do -/

section Writes

variable {c d : Database} {memberId : Uuid} {r : MemberRow} {tr : Past}

theorem companyMemberTuple_inj {companyId companyId' memberId'} :
    companyMemberTuple companyId memberId = companyMemberTuple companyId' memberId' ↔
      companyId = companyId' ∧ memberId = memberId' := by
  simp [companyMemberTuple]

theorem not_isAnchorRow_companyMemberTuple (companyId memberId : Uuid) :
    ¬ (companyMemberTuple companyId memberId).IsAnchorRow := by
  simp [companyMemberTuple, Tuple.IsAnchorRow]

theorem projected_of_row (memberId : Uuid) (r : MemberRow) (hc : Projected c)
    (hco : ∀ old, c.members.get? memberId = some old → old.companyId = r.companyId)
    (hrow : ∀ m, d.members.get? m = if m = memberId then some r else c.members.get? m)
    (hoth : ∀ t, t ≠ companyMemberTuple r.companyId memberId → (t ∈ d.authz.tuple ↔ t ∈ c.authz.tuple))
    (hself : companyMemberTuple r.companyId memberId ∈ d.authz.tuple ↔ r.isActive = true) :
    Projected d := by
  intro companyId m
  rw [hrow]
  by_cases hm : m = memberId
  · subst hm
    rw [if_pos rfl]
    by_cases hcomp : companyId = r.companyId
    · subst hcomp
      simp [hself]
    rw [hoth _ fun heq => hcomp (companyMemberTuple_inj.mp heq).1, hc]
    constructor
    · rintro ⟨old, hold, hold', _⟩
      exact absurd (hold'.symm.trans (hco old hold)) hcomp
    · rintro ⟨r', hr', hcomp', _⟩
      cases hr'
      exact absurd hcomp'.symm hcomp
  · rw [if_neg hm, hoth _ fun heq => hm (companyMemberTuple_inj.mp heq).2]
    exact hc companyId m

/-- The write makes `r` of the member's row, as long as the row is as in `c`. -/
structure WritesRow (c : Database) (memberId : Uuid) (w : Write) (r : MemberRow) : Prop where
  sameAuthz : ∀ c' : Database, (c'.apply w).authz = c'.authz
  self : ∀ c' : Database, memberRow c' memberId = memberRow c memberId → memberRow (c'.apply w) memberId = some r
  others : ∀ (c' : Database) m, m ≠ memberId → memberRow (c'.apply w) m = memberRow c' m
  company : ∀ old, memberRow c memberId = some old → old.companyId = r.companyId

theorem writesRow_insertMember (hnew : memberRow c memberId = none) (r : MemberRow) :
    WritesRow c memberId (.insertMember memberId r) r where
  sameAuthz _ := rfl
  self _ hsame :=
    (get?_insertMissing_of_none (hsame.trans hnew) r memberId).trans (if_pos rfl)
  others _ m hne := (get?_insertMissing r m).trans (if_neg hne)
  company _ hold := nomatch hold.symm.trans hnew

theorem writesRow_updateMember {old} (hold : memberRow c memberId = some old) (displayName : String)
    (email : Option String) (isActive : Bool) (isGuest : Option Bool) :
    WritesRow c memberId (.updateMember memberId displayName email isActive isGuest)
      (old.update displayName email isActive isGuest) where
  sameAuthz _ := rfl
  self _ hsame :=
    (get?_modify_of_some (hsame.trans hold) _ memberId).trans (if_pos rfl)
  others c' m hne := (get?_modify _ m).trans (if_neg hne)
  company old' hold' := by
    cases hold'.symm.trans hold
    rfl

theorem WritesRow.rely {w} (h : WritesRow c memberId w r) {next} (hR : Rely next tr c d)
    (hlk : .member memberId ∈ tr.held) : WritesRow d memberId w r := by
  have hsame := hR.1 memberId hlk
  exact ⟨h.sameAuthz, fun c' hrow => h.self c' (hrow.trans hsame), h.others,
    fun old hold => h.company old (hsame.symm.trans hold)⟩

/-- The row's write and the tuple's writes keep the projection, if the latter bring the tuple to what the
new row says. -/
theorem WritesRow.settled {w} (h : WritesRow c memberId w r) (ws : List AuthzWrite)
    (hlk : .member memberId ∈ tr.held) (hws : tr.writes = w :: ws.map Write.authz)
    (htuple : ∀ z : Store, (companyMemberTuple r.companyId memberId ∈ z.tuple ↔
      ∃ old, memberRow c memberId = some old ∧ old.isActive = true) →
      ∀ t, (t ∈ (ws.foldl Store.apply z).tuple ↔
      if t = companyMemberTuple r.companyId memberId then r.isActive = true else t ∈ z.tuple)) :
    Settled memberId tr c := by
  have hview : ∀ c', schema.view tr.writes c' = { c'.apply w with authz := ws.foldl Store.apply c'.authz } := by
    intro c'
    rw [hws, ← h.sameAuthz c']
    exact view_authz ws (c'.apply w)
  refine ⟨hlk, fun c' hsame hproj => ?_, fun c' m hne => ?_⟩
  · have hbef : companyMemberTuple r.companyId memberId ∈ c'.authz.tuple ↔
        ∃ old, memberRow c memberId = some old ∧ old.isActive = true := by
      rw [hproj, ← hsame]
      constructor
      · rintro ⟨old, hold, _, hact⟩
        exact ⟨old, hold, hact⟩
      · rintro ⟨old, hold, hact⟩
        exact ⟨old, hold, h.company old (hsame.symm.trans hold), hact⟩
    refine projected_of_row memberId r hproj (fun old hold => h.company old (hsame.symm.trans hold))
      (fun m => ?_) (fun t ht => ?_) ?_
    · rw [hview]
      by_cases hm : m = memberId
      · rw [if_pos hm, hm]
        exact h.self c' hsame
      · rw [if_neg hm]
        exact h.others c' m hm
    · rw [hview]
      exact (htuple c'.authz hbef t).trans (by rw [if_neg ht])
    · rw [hview]
      exact (htuple c'.authz hbef _).trans (by rw [if_pos rfl])
  · rw [hview]
    exact h.others c' m hne

theorem WritesRow.settled_same {w} (h : WritesRow c memberId w r)
    (hlk : .member memberId ∈ tr.held) (hws : tr.writes = [w])
    (hsame : r.isActive = true ↔ ∃ old, memberRow c memberId = some old ∧ old.isActive = true) :
    Settled memberId tr c := by
  refine h.settled [] hlk hws fun z hz t => ?_
  by_cases ht : t = companyMemberTuple r.companyId memberId
  · rw [if_pos ht, ht, hsame]
    exact hz
  · rw [if_neg ht]
    rfl

theorem WritesRow.settled_grant {w} (h : WritesRow c memberId w r) (hlk : .member memberId ∈ tr.held)
    (hws : tr.writes = [w, .authz (.insertTuple (companyMemberTuple r.companyId memberId))])
    (htext : (companyMemberTuple r.companyId memberId).IsText) (hact : r.isActive = true) :
    Settled memberId tr c := by
  refine h.settled [.insertTuple (companyMemberTuple r.companyId memberId)] hlk hws fun z _ t => ?_
  by_cases ht : t = companyMemberTuple r.companyId memberId
  · rw [if_pos ht, ht]
    exact iff_of_true (mem_put_self htext (not_isAnchorRow_companyMemberTuple _ _)) hact
  · rw [if_neg ht]
    exact ⟨fun hin => (mem_of_mem_put hin).resolve_right ht, mem_put⟩

theorem WritesRow.settled_revoke {w ledger} (h : WritesRow c memberId w r) (hlk : .member memberId ∈ tr.held)
    (hws : tr.writes =
      [w, .authz (.deleteTuple (companyMemberTuple r.companyId memberId)), .authz (.insertLedger ledger)])
    (hina : r.isActive = false) : Settled memberId tr c := by
  refine h.settled [.deleteTuple (companyMemberTuple r.companyId memberId), .insertLedger ledger] hlk hws
    fun z _ t => TupleTable.mem_filter.trans ?_
  by_cases ht : t = companyMemberTuple r.companyId memberId
  · simp [ht, hina]
  · simp [ht]

end Writes

/-! ## The transactions -/

section Transactions

variable {c : Database} {memberId : Uuid} {r : MemberRow} {w : Write} {tr : Past} {actor : String}

abbrev Finished : Unit → Past → Database → Prop :=
  Ready schema Projected Rely (fun _ _ => True) (RowLocks.Guarantee memberRow Lock.member)

theorem silent_insertLedger (row : LedgerRow) :
    RowLocks.Silent memberRow schema Projected (.authz (.insertLedger row)) :=
  fun _ => ⟨id, fun _ => rfl⟩

theorem Settled.audit_wp (h : Settled memberId tr c) : audit.wp schema Projected Rely (fun _ => Finished ()) tr c :=
  RowLocks.Settled.frame h writes_audit fun _ _ _ h => RowLocks.Settled.ready h

theorem WritesRow.grant_wp {done : Unit → Past → Database → Prop} (h : WritesRow c memberId w r)
    (hlk : .member memberId ∈ tr.held) (hws : tr.writes = [w]) (hact : r.isActive = true)
    (hdone : ∀ tr c, Settled memberId tr c → done () tr c) :
    (authz "org: grant company member tuple"
      (.grant (author actor) [companyMemberTuple r.companyId memberId])).wp schema Projected Rely done tr c := by
  refine AuthzTx.grant_wp (fun c' hR hproj hin => hdone _ c' ?_) fun c' hR hproj hout => ?_
  · -- the tuple is there already, so the row was active
    have hw := h.rely hR hlk
    rw [hws] at hin
    change _ ∈ (c'.apply w).authz.tuple at hin
    rw [hw.sameAuthz] at hin
    obtain ⟨old, hold, _, holdA⟩ := (hproj _ _).mp hin
    refine hw.settled_same (mem_append_left _ hlk) (by rw [Trail.extend, hws]; rfl) ?_
    exact iff_of_true hact ⟨old, hold, holdA⟩
  · refine RowLocks.Settled.frame ?_ ((AuthzTx.writes_insertLedger silent_insertLedger).lift fun _ => id)
      fun _ => hdone
    exact (h.rely hR hlk).settled_grant (mem_append_left _ hlk) (by rw [Trail.extend, hws]; rfl) hout.2 hact

theorem WritesRow.revoke_wp {done : Unit → Past → Database → Prop} (h : WritesRow c memberId w r)
    (hlk : .member memberId ∈ tr.held) (hws : tr.writes = [w]) (hina : r.isActive = false)
    (hdone : ∀ tr c, Settled memberId tr c → done () tr c) :
    (authz "org: revoke company member tuple" (.revokePositionOrMemberTuple (author actor)
      (companyMemberTuple r.companyId memberId))).wp schema Projected Rely done tr c := by
  refine AuthzTx.revokePositionOrMemberTuple_wp (fun c' hR hproj _ => hdone _ c' ?_)
    fun c' hR hproj hout => hdone _ c' ?_
  · exact (h.rely hR hlk).settled_revoke (mem_append_left _ hlk) (by rw [Trail.extend, hws]; rfl) hina
  -- there is no tuple to delete, so the row was inactive
  have hw := h.rely hR hlk
  rw [hws] at hout
  change _ ∉ (c'.apply w).authz.tuple at hout
  rw [hw.sameAuthz, hproj] at hout
  have hset : Settled memberId tr c' := by
    refine hw.settled_same hlk hws (iff_of_false (by simp [hina]) ?_)
    rintro ⟨old, hold, hact⟩
    exact hout ⟨old, hold, hw.company old hold, hact⟩
  refine RowLocks.Settled.extend hset _ _ fun x hx => ?_
  rw [mem_singleton.mp hx]
  exact silent_insertLedger _

theorem createMember_wp {companyId code displayName email isActive isGuest} :
    (createMember memberId actor companyId code displayName email isActive isGuest).wp schema Projected Rely
      (fun _ => Finished ()) .start c := by
  unfold createMember insertMember
  simp only [Prog.wp_bind, Prog.wp_pure]
  refine Prog.wp_ofExcept fun _ _ => Prog.wp_ofExcept fun _ _ => write_wp fun c' _ _ hrfs => ?_
  have hw := writesRow_insertMember (Database.checkInsertMember_eq_ok hrfs)
    ⟨companyId, normalizeCode code, trimSpace displayName, strOrNil email, none, isActive, isGuest⟩
  have hlk : Lock.member memberId ∈ [Lock.member memberId, .memberCode companyId (normalizeCode code)] :=
    mem_cons_self
  refine whenever_wp (fun hact => ?_) fun hina => ?_
  · exact hw.grant_wp hlk rfl hact fun tr c h => h.audit_wp
  · refine Settled.audit_wp (hw.settled_same hlk rfl (iff_of_false hina ?_))
    rintro ⟨old, hold, _⟩
    exact nomatch hold.symm.trans (Database.checkInsertMember_eq_ok hrfs)

theorem updateMember_wp {displayName email isActive isGuest} :
    (updateMember memberId actor displayName email isActive isGuest).wp schema Projected Rely
      (fun _ => Finished ()) .start c := by
  unfold updateMember getMember updateMemberRow
  simp only [Prog.wp_bind, Prog.wp_pure]
  refine Prog.wp_ofExcept fun _ _ => get_wp fun c₁ before _ _ hbef => update_wp fun old c₂ hR _ hfound => ?_
  replace hbef : memberRow c₁ memberId = some before := hbef
  have hold : memberRow c₂ memberId = some old := hfound.1
  have hw := writesRow_updateMember hold (trimSpace displayName) (strOrNil email) isActive isGuest
  unfold projectMembership
  split
  · rename_i hgrant
    exact hw.grant_wp mem_cons_self rfl hgrant.2 fun tr c h => h.audit_wp
  split
  · rename_i hrev
    exact hw.revoke_wp mem_cons_self rfl (Bool.eq_false_iff.mpr hrev.2) fun tr c h => h.audit_wp
  rename_i hgrant hrev
  -- the flag is to be what was read, and the update found it so
  have hflag : before.isActive = isActive :=
    Bool.eq_iff_iff.mpr ⟨fun hb => not_not.mp fun ha => hrev ⟨hb, ha⟩,
      fun ha => not_not.mp fun hb => hgrant ⟨hb, ha⟩⟩
  have hread : memberActive c₁ memberId = some isActive := by
    simp [memberActive, hbef, hflag]
  have hfound := hR.2 hread
  rw [memberActive, hold] at hfound
  refine Prog.wp_ret (Settled.audit_wp (hw.settled_same mem_cons_self rfl ?_))
  cases Option.some.inj hfound
  constructor
  · intro ha
    exact ⟨old, hold, ha⟩
  · rintro ⟨old', hold', ha⟩
    cases hold.symm.trans hold'
    exact ha

end Transactions

/-! ## Membership -/

theorem prog_contract : Contract schema prog Undisturbed Projected Rely (fun _ _ => True)
      fun _ => RowLocks.Guarantee memberRow Lock.member := by
  refine RowLocks.contract (fun next c => ?_) (fun next a b c hab hbc => ?_) fun r c _ => ?_
  · unfold Stable
    split
    · exact id
    · trivial
  · unfold Stable at hab hbc ⊢
    split
    · exact fun h => hbc (hab h)
    · trivial
  · cases r with
    | createMember id actor companyId code displayName email isActive isGuest => exact call_wp createMember_wp
    | updateMember id actor displayName email isActive isGuest => exact call_wp updateMember_wp

/-- In the runs where no commit changes the active flag under an update that is to leave it as it is, the
tuple of every member says what its row says. -/
theorem companyMember_iff_active {c : Database} {s : St} (hstart : Projected c)
    (hreach : Runs.Reach (step schema prog) Undisturbed (.start c) s) {memberId : Uuid}
    {row : MemberRow} (hrow : s.committed.members.get? memberId = some row) :
    companyMemberTuple row.companyId memberId ∈ s.committed.authz.tuple ↔ row.isActive = true := by
  rw [prog_contract.reach hstart hreach]
  constructor
  · rintro ⟨row', hrow', _, hact⟩
    cases hrow.symm.trans hrow'
    exact hact
  · exact fun hact => ⟨row, hrow, rfl, hact⟩

theorem projected_office : Projected office := fun _ memberId =>
  ⟨nofun, fun ⟨_, hrow, _⟩ => nomatch (show office.members.get? memberId = none from rfl).symm.trans hrow⟩

def hireMia : Call := .createMember "mia" "admin" "acme" "M1" "Mia" "" true false

def setMiaActive (isActive : Bool) : Call := .updateMember "mia" "admin" "Mia" "" isActive none

def joinAndLeave : List (Action Call) :=
  [.begin 1 hireMia, .exec 1, .exec 1, .exec 1, .exec 1, .commit 1,
    .begin 2 (setMiaActive false), .exec 2, .exec 2, .exec 2, .exec 2, .commit 2]

theorem companyMember_iff_active_left : ∃ s row, Runs.Reach (step schema prog) Undisturbed (.start office) s ∧
      s.committed.members.get? "mia" = some row ∧
      (companyMemberTuple row.companyId "mia" ∈ s.committed.authz.tuple ↔ row.isActive = true) := by
  have hrun : (joinAndLeave.foldlM (loneStep schema prog) (.start office)).map (fun s =>
      (s.committed.members.get? "mia").isSome) = some true := by decide +kernel
  obtain ⟨s, hs, hmia⟩ := Option.map_eq_some_iff.mp hrun
  obtain ⟨row, hrow⟩ := Option.isSome_iff_exists.mp hmia
  have hreach : Runs.Reach (step schema prog) Undisturbed (.start office) s :=
    reach_of_loneCommit RowLocks.undisturbed_of_loneCommit joinAndLeave hs
  exact ⟨s, row, hreach, hrow, companyMember_iff_active projected_office hreach hrow⟩

/-- An update that is to leave Mia active has read her row when another deactivates her and commits. -/
def overtaken : List (Action Call) :=
  [.begin 1 hireMia, .exec 1, .exec 1, .exec 1, .exec 1, .commit 1, .begin 2 (setMiaActive true), .exec 2,
    .begin 3 (setMiaActive false), .exec 3, .exec 3, .exec 3, .exec 3, .commit 3,
    .exec 2, .exec 2, .commit 2]

theorem overtaken_losesTuple :
    Projected office ∧ ∃ s row, overtaken.foldlM (step schema prog) (.start office) = some s ∧
      s.sessions.rows = [] ∧ s.committed.members.get? "mia" = some row ∧ row.isActive = true ∧
      companyMemberTuple row.companyId "mia" ∉ s.committed.authz.tuple := by
  have hrun : (overtaken.foldlM (step schema prog) (.start office)).map (fun s =>
      (s.sessions.rows.isEmpty, (s.committed.members.get? "mia").map fun row =>
        (row.isActive, decide (companyMemberTuple row.companyId "mia" ∈ s.committed.authz.tuple)))) =
      some (true, some (true, false)) := by decide +kernel
  obtain ⟨s, hs, hseen⟩ := Option.map_eq_some_iff.mp hrun
  obtain ⟨hempty, hmia⟩ := Prod.mk.inj hseen
  obtain ⟨row, hrow, hflags⟩ := Option.map_eq_some_iff.mp hmia
  obtain ⟨hact, htuple⟩ := Prod.mk.inj hflags
  exact ⟨projected_office, s, row, hs, List.isEmpty_iff.mp hempty, hrow, hact, of_decide_eq_false htuple⟩

end Kiban.Org.CompanyMembership
