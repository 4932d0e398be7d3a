import Kiban.Lib.RowLocks
import Kiban.Org.Operations

/-!
# Group membership

The rows of `org.group_member` are the members of a group, and the tuples `group:g#member @
member:m#mapped_user` should be the same pairs.  An `AddGroupMember` of a pair that is there inserts no row
and so locks none, and still writes the tuple.
-/

namespace Kiban.Org.GroupMembership

open Transactions OrgTx List Keyed.Table

inductive Call where
  | addGroupMember (now : Int) (actor : String) (groupId memberId : Uuid)
  | removeGroupMember (actor : String) (groupId memberId : Uuid)

def prog : Call → OrgTx Unit
  | .addGroupMember now actor groupId memberId => call (Org.addGroupMember now actor groupId memberId)
  | .removeGroupMember actor groupId memberId => Org.removeGroupMember actor groupId memberId

def inGroup (s : Database) (k : Uuid × Uuid) : Bool := (s.groupMembers.get? k).isSome

/-- The group's tuples are exactly its rows. -/
def Projected (s : Database) : Prop :=
  ∀ groupId memberId, groupMemberTuple groupId memberId ∈ s.authz.tuple ↔ inGroup s (groupId, memberId) = true

/-- The tuple is written for a pair that is still there. -/
def Stable : Option Stmt → Database → Database → Prop
  | some (.authz (.insertTuple t)), c, c' =>
    ∀ k, t = groupMemberTuple k.1 k.2 → inGroup c k = true → inGroup c' k = true
  | _, _, _ => True

abbrev St := State Database Write Lock Stmt OrgError Call

/-- No commit removes a pair while another open transaction, which has found it in place, is about to write
its tuple. -/
abbrev Undisturbed : St → Action Call → Prop := RowLocks.Undisturbed Stable schema

def pairLock (k : Uuid × Uuid) : Lock := .groupMember k.1 k.2

abbrev Rely : Option Stmt → Past → Database → Database → Prop := RowLocks.Rely inGroup pairLock Stable

abbrev Settled : Uuid × Uuid → Past → Database → Prop := RowLocks.Settled inGroup pairLock schema Projected

abbrev Finished : Unit → Past → Database → Prop :=
  Ready schema Projected Rely (fun _ _ => True) (RowLocks.Guarantee inGroup pairLock)

/-! ## What the writes do -/

section Writes

variable {c : Database} {k : Uuid × Uuid} {w : Write} {tr : Past}

theorem groupMemberTuple_inj {groupId memberId groupId' memberId'} :
    groupMemberTuple groupId memberId = groupMemberTuple groupId' memberId' ↔
      groupId = groupId' ∧ memberId = memberId' := by
  simp [groupMemberTuple]

theorem not_isAnchorRow_groupMemberTuple (groupId memberId : Uuid) :
    ¬ (groupMemberTuple groupId memberId).IsAnchorRow := by
  simp [groupMemberTuple, Tuple.IsAnchorRow]

theorem settled_of_writes (ws : List AuthzWrite) (present : Bool) (hlk : pairLock k ∈ tr.held)
    (hws : tr.writes = w :: ws.map Write.authz)
    (hauthz : ∀ c' : Database, (c'.apply w).authz = c'.authz)
    (hself : ∀ c' : Database, inGroup (c'.apply w) k = present)
    (hoth : ∀ (c' : Database) k', k' ≠ k → inGroup (c'.apply w) k' = inGroup c' k')
    (htuple : ∀ (z : Store) t, t ∈ (ws.foldl Store.apply z).tuple ↔
      if t = groupMemberTuple k.1 k.2 then present = true else t ∈ z.tuple) :
    Settled k tr c := by
  have hview : ∀ c', schema.view tr.writes c' = { c'.apply w with authz := ws.foldl Store.apply c'.authz } := by
    intro c'
    rw [hws, ← hauthz c']
    exact view_authz ws (c'.apply w)
  refine ⟨hlk, fun c' _ hproj groupId memberId => ?_, fun c' k' hne => ?_⟩
  · rw [hview]
    refine (htuple c'.authz _).trans ?_
    change _ ↔ inGroup (c'.apply w) (groupId, memberId) = true
    by_cases hk : (groupId, memberId) = k
    · subst hk
      rw [if_pos rfl, hself]
    · rw [if_neg fun heq => hk (Prod.ext_iff.mpr (groupMemberTuple_inj.mp heq)), hoth c' _ hk]
      exact hproj groupId memberId
  · rw [hview]
    exact hoth c' k' hne

theorem settled_of_insert {row} (hlk : pairLock k ∈ tr.held)
    (hws : tr.writes = [.insertGroupMember k.1 k.2 row, .authz (.insertTuple (groupMemberTuple k.1 k.2))])
    (htext : (groupMemberTuple k.1 k.2).IsText) : Settled k tr c := by
  refine settled_of_writes [.insertTuple (groupMemberTuple k.1 k.2)] true hlk hws (fun _ => rfl)
    (fun c' => ?_) (fun c' k' hne => ?_) fun z t => ?_
  · simp [inGroup, Database.apply, get?_insertMissing]
  · simp [inGroup, Database.apply, get?_insertMissing, hne]
  · by_cases ht : t = groupMemberTuple k.1 k.2
    · rw [if_pos ht, ht]
      exact iff_of_true (mem_put_self htext (not_isAnchorRow_groupMemberTuple _ _)) rfl
    · rw [if_neg ht]
      exact ⟨fun hin => (mem_of_mem_put hin).resolve_right ht, mem_put⟩

theorem settled_of_delete {ledger} (hlk : pairLock k ∈ tr.held)
    (hws : tr.writes = [.deleteGroupMember k.1 k.2, .authz (.deleteTuple (groupMemberTuple k.1 k.2)),
      .authz (.insertLedger ledger)]) :
    Settled k tr c := by
  refine settled_of_writes [.deleteTuple (groupMemberTuple k.1 k.2), .insertLedger ledger] false hlk
    hws (fun _ => rfl) (fun c' => ?_) (fun c' k' hne => ?_) fun z t => TupleTable.mem_filter.trans ?_
  · simp [inGroup, Database.apply, get?_erase]
  · simp [inGroup, Database.apply, get?_erase, hne]
  · by_cases ht : t = groupMemberTuple k.1 k.2
    · simp [ht]
    · simp [ht]

end Writes

/-! ## The transactions -/

section Transactions

variable {c : Database} {groupId memberId : Uuid} {actor : String}

theorem silent_insertLedger (row : LedgerRow) :
    RowLocks.Silent inGroup schema Projected (.authz (.insertLedger row)) :=
  fun _ => ⟨id, fun _ => rfl⟩

theorem Settled.audit_wp {k tr} (h : Settled k tr c) : audit.wp schema Projected Rely Finished tr c :=
  RowLocks.Settled.frame h writes_audit fun _ _ _ h => RowLocks.Settled.ready h

theorem grant_wp_of_insert {tr row} {done : Unit → Past → Database → Prop}
    (hlk : pairLock (groupId, memberId) ∈ tr.held)
    (hnew : inGroup c (groupId, memberId) = false)
    (hws : tr.writes = [.insertGroupMember groupId memberId row])
    (hdone : ∀ tr c, Settled (groupId, memberId) tr c → done () tr c) :
    (authz "org: grant group member tuple"
      (.grant (author actor) [groupMemberTuple groupId memberId])).wp schema Projected Rely done tr c := by
  refine AuthzTx.grant_wp (fun c' hR hproj hin => ?_) fun c' hR _ hout => ?_
  · rw [hws] at hin
    have hrow := (hproj groupId memberId).mp hin
    rw [hR.1 _ hlk, hnew] at hrow
    cases hrow
  · refine RowLocks.Settled.frame ?_ ((AuthzTx.writes_insertLedger silent_insertLedger).lift fun _ => id)
      fun _ => hdone
    exact settled_of_insert (mem_append_left _ hlk) (by rw [Trail.extend, hws]; rfl) hout.2

theorem grant_wp_of_found {tr} (hfound : inGroup c (groupId, memberId) = true) (hws : tr.writes = []) :
    (authz "org: grant group member tuple" (.grant (author actor) [groupMemberTuple groupId memberId])).wp
      schema Projected Rely Finished tr c := by
  refine AuthzTx.grant_wp (fun c' hR hproj hin => ?_) fun c' hR hproj hnot => ?_
  · exact RowLocks.ready_of_idle (by rw [Trail.extend, hws]; rfl)
  · -- it is there still, and so is its tuple
    have hout := hnot.1
    rw [hws] at hout
    exact absurd ((hproj groupId memberId).mpr (hR.2 (groupId, memberId) rfl hfound)) hout

theorem addGroupMember_wp {now} :
    (addGroupMember now actor groupId memberId).wp schema Projected Rely (fun _ => Finished ()) .start c := by
  unfold addGroupMember getGroup getMember getGroupMember
  simp only [Prog.wp_bind, Prog.wp_pure]
  refine get_wp fun c₁ group _ _ _ => failIf_wp fun _ => get_wp fun c₂ row _ _ _ => failIf_wp fun _ =>
    failIf_wp fun _ => insertGroupMember_wp (fun c₃ _ _ _ => ?_) fun c₃ _ _ hnew => ?_
  · refine get_wp fun c₄ stored _ _ hsto => ?_
    have hfound : inGroup c₄ (groupId, memberId) = true := Option.isSome_iff_exists.mpr ⟨stored, hsto⟩
    refine (grant_wp_of_found hfound rfl).mono fun _ tr c h => whenever_wp (fun hf => ?_) fun _ => h
    cases hf
  · refine get_wp fun c₄ stored hR _ _ => ?_
    have hnew₄ : inGroup c₄ (groupId, memberId) = false := (hR.1 _ mem_cons_self).trans hnew.1
    refine grant_wp_of_insert mem_cons_self hnew₄ rfl fun tr c h => whenever_wp (fun _ => ?_) fun hf => ?_
    · exact h.audit_wp
    · exact absurd rfl hf

theorem removeGroupMember_wp :
    (removeGroupMember actor groupId memberId).wp schema Projected Rely Finished .start c := by
  unfold removeGroupMember getGroup
  simp only [Prog.wp_bind]
  refine get_wp fun c₁ group _ _ _ => failIf_wp fun _ => deleteGroupMember_wp fun c₂ _ _ hin => ?_
  refine AuthzTx.revokePositionOrMemberTuple_wp (fun c₃ _ _ _ => ?_) fun c₃ hR hproj hout => ?_
  · exact Settled.audit_wp (k := (groupId, memberId)) (settled_of_delete mem_cons_self rfl)
  · -- the row is locked and there, and so is its tuple
    have hin₃ : inGroup c₃ (groupId, memberId) = true := (hR.1 _ mem_cons_self).trans hin
    exact absurd ((hproj groupId memberId).mpr hin₃) hout

end Transactions

/-! ## Membership -/

theorem prog_contract : Contract schema prog Undisturbed Projected Rely (fun _ _ => True)
      fun _ => RowLocks.Guarantee inGroup pairLock := by
  refine RowLocks.contract (fun next c => ?_) (fun next a b c hab hbc => ?_) fun r c _ => ?_
  · unfold Stable
    split
    · exact fun _ _ => id
    · trivial
  · unfold Stable at hab hbc ⊢
    split
    · exact fun k ht h => hbc k ht (hab k ht h)
    · trivial
  · cases r with
    | addGroupMember now actor groupId memberId => exact call_wp addGroupMember_wp
    | removeGroupMember actor groupId memberId => exact removeGroupMember_wp

/-- In the runs where no commit removes a pair under an add that has found it in place, the group's tuples
are its rows. -/
theorem groupMember_iff_row {c : Database} {s : St} (hstart : Projected c)
    (hreach : Runs.Reach (step schema prog) Undisturbed (.start c) s) (groupId memberId : Uuid) :
    groupMemberTuple groupId memberId ∈ s.committed.authz.tuple ↔
      (s.committed.groupMembers.get? (groupId, memberId)).isSome = true :=
  prog_contract.reach hstart hreach groupId memberId

def crew : Database :=
  { office with members := ⟨[("mia", ⟨"acme", "M1", "Mia", none, none, true, false⟩)], by decide⟩ }

theorem projected_crew : Projected crew := fun _ _ => ⟨nofun, nofun⟩

def addMia : Call := .addGroupMember 0 "admin" "staff" "mia"

def removeMia : Call := .removeGroupMember "admin" "staff" "mia"

def added : List (Action Call) :=
  [.begin 1 addMia, .exec 1, .exec 1, .exec 1, .exec 1, .exec 1, .exec 1, .exec 1, .commit 1]

def addedTwice : List (Action Call) :=
  added ++ [.begin 2 addMia, .exec 2, .exec 2, .exec 2, .exec 2, .exec 2, .commit 2,
    .begin 3 removeMia, .exec 3, .exec 3, .exec 3, .exec 3, .commit 3]

theorem groupMember_iff_row_addedTwice :
    ∃ s, Runs.Reach (step schema prog) Undisturbed (.start crew) s ∧ s.sessions.rows = [] ∧
      (groupMemberTuple "staff" "mia" ∈ s.committed.authz.tuple ↔
        (s.committed.groupMembers.get? ("staff", "mia")).isSome = true) := by
  have hrun : (addedTwice.foldlM (loneStep schema prog) (.start crew)).map (fun s =>
      s.sessions.rows.isEmpty) = some true := by decide +kernel
  obtain ⟨s, hs, hempty⟩ := Option.map_eq_some_iff.mp hrun
  have hreach : Runs.Reach (step schema prog) Undisturbed (.start crew) s :=
    reach_of_loneCommit RowLocks.undisturbed_of_loneCommit addedTwice hs
  exact ⟨s, hreach, List.isEmpty_iff.mp hempty, groupMember_iff_row projected_crew hreach "staff" "mia"⟩

/-- Mia's second add has read her row back when a removal of her runs and commits. -/
def removedMeanwhile : List (Action Call) :=
  added ++ [.begin 2 addMia, .exec 2, .exec 2, .exec 2, .exec 2,
    .begin 3 removeMia, .exec 3, .exec 3, .exec 3, .exec 3, .commit 3, .exec 2, .exec 2, .commit 2]

theorem removedMeanwhile_keepsTuple :
    Projected crew ∧ ∃ s, removedMeanwhile.foldlM (step schema prog) (.start crew) = some s ∧
      s.sessions.rows = [] ∧ groupMemberTuple "staff" "mia" ∈ s.committed.authz.tuple ∧
      s.committed.groupMembers.get? ("staff", "mia") = none := by
  have hrun : (removedMeanwhile.foldlM (step schema prog) (.start crew)).map (fun s =>
      (s.sessions.rows.isEmpty, decide (groupMemberTuple "staff" "mia" ∈ s.committed.authz.tuple),
        (s.committed.groupMembers.get? ("staff", "mia")).isNone)) = some (true, true, true) := by
    decide +kernel
  obtain ⟨s, hs, hseen⟩ := Option.map_eq_some_iff.mp hrun
  obtain ⟨hempty, hseen⟩ := Prod.mk.inj hseen
  obtain ⟨htuple, hrow⟩ := Prod.mk.inj hseen
  exact ⟨projected_crew, s, hs, List.isEmpty_iff.mp hempty, of_decide_eq_true htuple,
    Option.isNone_iff_eq_none.mp hrow⟩

end Kiban.Org.GroupMembership
