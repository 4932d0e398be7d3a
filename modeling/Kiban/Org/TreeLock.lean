import Kiban.Org.Integrity

/-!
# The tree lock

Every transaction that writes an org unit, a position or an assignment holds the advisory lock from its
first read that matters to its end; `DeleteOrgUnit` and `AddGroupMember` do without.  So while a holder is
open the others can only take units away, and the foreign keys keep the units it needs.
-/

namespace Kiban.Org.TreeLock

open Transactions OrgTx Forest List Keyed.Table Option

inductive Call where
  | createOrgUnit (id : Uuid) (typeKey : String) (parentId : Option Uuid) (code name : String) (isActive : Bool)
  | updateOrgUnit (id : Uuid) (parentId : Option Uuid) (code name : String) (isActive : Bool)
  | deleteOrgUnit (id : Uuid)
  | createPosition (id : Uuid) (actor : String) (companyId : Uuid) (code title : String) (orgUnitId : Uuid)
  | updatePosition (id : Uuid) (title : String) (orgUnitId : Uuid)
  | assignNow (id : Uuid) (today : Except OrgError Date) (actor : String) (positionId memberId : Uuid)
  | createAndAssign (today : Except OrgError Date) (actor : String) (n : NewPosition)
  | handover (id : Uuid) (today : Except OrgError Date) (actor : String) (positionId memberId : Uuid)
      (expected : Option Uuid)
  | addGroupMember (now : Int) (actor : String) (groupId memberId : Uuid)

def prog : Call → OrgTx Unit
  | .createOrgUnit id typeKey parentId code name isActive =>
    call (Org.createOrgUnit id typeKey parentId code name isActive)
  | .updateOrgUnit id parentId code name isActive => call (Org.updateOrgUnit id parentId code name isActive)
  | .deleteOrgUnit id => Org.deleteOrgUnit id
  | .createPosition id actor companyId code title orgUnitId =>
    call (Org.createPosition id actor companyId code title orgUnitId)
  | .updatePosition id title orgUnitId => call (Org.updatePosition id title orgUnitId)
  | .assignNow id today actor positionId memberId => call (Org.assignNow id today actor positionId memberId)
  | .createAndAssign today actor n => call (Org.createAndAssign today actor n)
  | .handover id today actor positionId memberId expected =>
    call (Org.handover id today actor positionId memberId expected)
  | .addGroupMember now actor groupId memberId => call (Org.addGroupMember now actor groupId memberId)

def Sound (c : Database) : Prop := Integrity c ∧ Linked c

def Rely (_ : Option Stmt) (tr : Past) (c c' : Database) : Prop :=
  Fixed c c' ∧ (.tree ∈ tr.held → Shrinks c c')

def Guarantee (tr : Past) (c c' : Database) : Prop :=
  Fixed c c' ∧ (.tree ∉ tr.held → Shrinks c c')

/-- Whatever the others commit, the writes so far keep the integrity, if the foreign keys let them in. -/
def Keeps (tr : Past) (c : Database) : Prop :=
  ∀ c', Rely none tr c c' → Sound c' → Linked (schema.view tr.writes c') →
    Integrity (schema.view tr.writes c') ∧ Guarantee tr c' (schema.view tr.writes c')

section Relations

variable {a b c : Database}

-- the rely does not look at the next statement
theorem Rely.trans {n n' n'' tr} (hab : Rely n tr a b) (hbc : Rely n' tr b c) : Rely n'' tr a c :=
  ⟨hab.1.trans hbc.1, fun hheld => (hab.2 hheld).trans (hbc.2 hheld)⟩

end Relations

/-! ## Writes beside the forest -/

section Mild

variable {c c' : Database} {tr : Past} {ks : List Lock} {new : List Write} {next : Option Stmt}

/-- A write that leaves the forest alone and harms no integrity. -/
def Mild (w : Write) : Prop := ∀ d : Database, SameForest d (d.apply w) ∧ (Integrity d → Integrity (d.apply w))

theorem mild_authz (w : AuthzWrite) : Mild (.authz w) := by
  intro d
  have hsame : SameForest d (d.apply (.authz w)) := ⟨fun _ => rfl, rfl, rfl, rfl, rfl⟩
  exact ⟨hsame, fun h => h.of_sameForest hsame h.assigned h.grouped⟩

theorem mild_endAssignment (id : Uuid) (validTo : Date) : Mild (.endAssignment id validTo) := fun _ =>
  ⟨⟨fun _ => rfl, rfl, rfl, rfl, rfl⟩, fun h => h.endAssignment validTo⟩

theorem view_of_mild (hnew : ∀ w ∈ new, Mild w) (d : Database) :
    SameForest d (schema.view new d) ∧ (Integrity d → Integrity (schema.view new d)) := by
  induction new generalizing d with
  | nil => exact ⟨⟨fun _ => rfl, rfl, rfl, rfl, rfl⟩, id⟩
  | cons w new ih =>
    obtain ⟨hsame, hkeeps⟩ := hnew w mem_cons_self d
    obtain ⟨hsame', hkeeps'⟩ := ih (fun w hw => hnew w (mem_cons_of_mem _ hw)) (d.apply w)
    exact ⟨hsame.trans hsame', fun h => hkeeps' (hkeeps h)⟩

theorem Keeps.rely (h : Keeps tr c) (hR : Rely next tr c c') : Keeps tr c' :=
  fun c'' hR' => h c'' (hR.trans hR')

theorem Keeps.extend (h : Keeps tr c) (locks : List Lock) (label : Stmt)
    (hnew : ∀ w ∈ new, Mild w) : Keeps (tr.extend new locks label) c := by
  intro c' hR hsound hlink
  rw [Schema.view_append] at hlink ⊢
  obtain ⟨hsame, hkeeps⟩ := view_of_mild hnew (schema.view tr.writes c')
  obtain ⟨hint, hfixed, hshr⟩ := h c' ⟨hR.1, fun hheld => hR.2 (mem_append_left _ hheld)⟩ hsound
    (hsame.linked hlink)
  exact ⟨hkeeps hint, hfixed.trans hsame.fixed,
    fun hfree => (hshr fun hheld => hfree (mem_append_left _ hheld)).trans hsame.shrinks⟩

/-- A transaction under way, with the locks it is known to hold. -/
structure Progress (ks : List Lock) (tr : Past) (c : Database) : Prop where
  held : ks ⊆ tr.held
  keeps : Keeps tr c

theorem Progress.rely (h : Progress ks tr c) (hR : Rely next tr c c') :
    Progress ks tr c' := ⟨h.held, h.keeps.rely hR⟩

theorem Progress.extend (h : Progress ks tr c) (locks : List Lock) (label : Stmt) (hnew : ∀ w ∈ new, Mild w) :
    Progress ks (tr.extend new locks label) c :=
  ⟨fun _ hk => mem_append_left _ (h.held hk), h.keeps.extend locks label hnew⟩

theorem Progress.frame {α : Type} {p : OrgTx α} {post : α → Past → Database → Prop} (h : Progress ks tr c)
    (hp : p.Writes Mild) (hpost : ∀ a tr c, Progress ks tr c → post a tr c) :
    p.wp schema Sound Rely post tr c :=
  hp.wp (fun _ _ _ _ h hR => h.rely hR) (fun _ _ _ locks label h hnew => h.extend locks label hnew) h hpost

theorem Keeps.frame {α : Type} {p : OrgTx α} {post : α → Past → Database → Prop} (h : Keeps tr c)
    (hp : p.Writes Mild) (hpost : ∀ a tr c, Keeps tr c → post a tr c) :
    p.wp schema Sound Rely post tr c :=
  Progress.frame ⟨nil_subset _, h⟩ hp fun a tr c h => hpost a tr c h.keeps

abbrev Finished : Unit → Past → Database → Prop :=
  Ready schema Sound Rely (fun _ _ => True) Guarantee

theorem Keeps.ready (h : Keeps tr c) : Finished () tr c := by
  intro c' hR hsound hvalid _
  have hlink : Linked (schema.view tr.writes c') := linked_of_foreignKeys hvalid
  obtain ⟨hint, hG⟩ := h c' hR hsound hlink
  exact ⟨⟨hint, hlink⟩, hG⟩

theorem Keeps.audit_wp (h : Keeps tr c) : audit.wp schema Sound Rely Finished tr c :=
  h.frame writes_audit fun _ _ _ h => h.ready

theorem keeps_of_idle (hws : tr.writes = []) : Keeps tr c := by
  intro c' _ hsound _
  rw [hws]
  exact ⟨hsound.1, Fixed.refl c', fun _ => Shrinks.refl c'⟩

end Mild

/-! ## Writes on the forest -/

section Forest

variable {c : Database} {tr : Past} {id : Uuid}

theorem keeps_insertOrgUnit {u} (hlk : .tree ∈ tr.held)
    (hws : tr.writes = [.insertOrgUnit id u]) (hcheck : c.checkInsertOrgUnit id u = .ok ())
    (hroot : u.parentId = none ↔ c.unitTypes.get? u.typeKey = some true) : Keeps tr c := by
  intro c' hR hsound hlink
  obtain ⟨hnew, hpar⟩ := checkInsertOrgUnit_eq_ok hcheck
  rw [hws] at hlink ⊢
  have hnew' : c'.units.get? id = none :=
    Option.eq_none_iff_forall_ne_some.mpr fun u hu => nomatch hnew.symm.trans ((hR.2 hlk).units id u hu)
  rw [← hR.1.unitTypes] at hroot
  exact ⟨hsound.1.insertOrgUnit hsound.2 hlink hnew' hpar hroot, ⟨rfl, rfl, rfl⟩, fun hfree => absurd hlk hfree⟩

theorem keeps_updateOrgUnit {old parentId code name isActive} (hlk : .tree ∈ tr.held)
    (hws : tr.writes = [.updateOrgUnit id parentId code name isActive])
    (hold : c.units.get? id = some old)
    (hroot : parentId = none ↔ c.unitTypes.get? old.typeKey = some true)
    (hmove : old.parentId = parentId ∨ Movable c id parentId) : Keeps tr c := by
  intro c' hR hsound hlink
  rw [hws] at hlink ⊢
  refine ⟨?_, ⟨rfl, rfl, rfl⟩, fun hfree => absurd hlk hfree⟩
  have hshr := hR.2 hlk
  change Linked (c'.apply (.updateOrgUnit id parentId code name isActive)) at hlink
  change Integrity (c'.apply (.updateOrgUnit id parentId code name isActive))
  cases hrow : c'.units.get? id with
  | none =>
    -- the unit is gone, and the update finds nothing
    refine hsound.1.of_sameForest ⟨fun a => ?_, rfl, rfl, rfl, rfl⟩ hsound.1.assigned hsound.1.grouped
    refine (get?_modify _ a).trans ?_
    rw [hrow]
    split
    · rename_i ha
      rw [ha, hrow]
      rfl
    · rfl
  | some u =>
    cases hold.symm.trans (hshr.units id u hrow)
    rw [← hR.1.unitTypes] at hroot
    refine hsound.1.updateOrgUnit hsound.2 hlink hrow hroot (hmove.imp_right fun hmove => ?_)
    refine hmove.shrinks hshr hsound.2 fun b hb => ?_
    have hne : b ≠ id := by
      rintro rfl
      exact hmove.avoids b hb .refl
    have hnode := node_updateOrgUnit hrow parentId code name isActive
    have hup : Up (c'.apply (.updateOrgUnit id parentId code name isActive)).node id b := by
      rw [Up, hnode, Function.update_self, hb]
    have hb' := hlink.parents id b hup
    rwa [hnode, Function.update_of_ne hne] at hb'

theorem keeps_deleteOrgUnit (hws : tr.writes = [.deleteOrgUnit id]) : Keeps tr c := by
  intro c' _ hsound hlink
  rw [hws] at hlink ⊢
  refine ⟨hsound.1.deleteOrgUnit hlink, ⟨rfl, rfl, rfl⟩, fun _ => ⟨fun id' u hu => ?_, rfl⟩⟩
  change (c'.units.erase id).get? id' = some u at hu
  rw [get?_erase] at hu
  split at hu
  · cases hu
  · exact hu

theorem keeps_insertPosition {p} (hlk : .tree ∈ tr.held)
    (hws : tr.writes = [.insertPosition id p]) (hcheck : c.checkInsertPosition id p = .ok ()) :
    Keeps tr c := by
  intro c' hR hsound hlink
  obtain ⟨hnew, htyped, hreach⟩ := checkInsertPosition_eq_ok hcheck
  have hshr := hR.2 hlk
  rw [hws] at hlink ⊢
  rw [← hshr.positions] at hnew
  have hself : (c'.apply (.insertPosition id p)).positions.get? id = some p :=
    (get?_insertMissing_of_none hnew p id).trans (if_pos rfl)
  obtain ⟨hco, hunit⟩ := hlink.positions id p hself
  obtain ⟨hreach', hroot⟩ := under_of_shrinks hshr hR.1 hsound.2 hsound.1 htyped hreach hunit hco
  exact ⟨hsound.1.insertPosition hnew hreach' hroot, ⟨rfl, rfl, rfl⟩, fun hfree => absurd hlk hfree⟩

theorem keeps_updatePosition {old title orgUnitId} (hlk : .tree ∈ tr.held)
    (hws : tr.writes = [.updatePosition id title orgUnitId])
    (hold : c.positions.get? id = some old)
    (hcheck : c.checkPosition id (old.update title orgUnitId) = .ok ()) : Keeps tr c := by
  intro c' hR hsound hlink
  obtain ⟨_, hreach⟩ := checkPosition_eq_ok hcheck
  have hshr := hR.2 hlk
  rw [hws] at hlink ⊢
  rw [← hshr.positions] at hold
  have hself : (c'.apply (.updatePosition id title orgUnitId)).positions.get? id =
      some (old.update title orgUnitId) :=
    (get?_modify_of_some hold _ id).trans (if_pos rfl)
  have hunit := (hlink.positions id _ hself).2
  refine ⟨hsound.1.updatePosition hold ?_, ⟨rfl, rfl, rfl⟩, fun hfree => absurd hlk hfree⟩
  exact Reaches.restrict (fun _ _ => hshr.node) hsound.2.parents hunit hreach

theorem keeps_insertGroupMember {groupId memberId row} (hws : tr.writes = [.insertGroupMember groupId memberId row])
    (hcheck : c.checkInsertGroupMember groupId memberId row = .ok ()) : Keeps tr c := by
  intro c' hR hsound _
  have hco := checkInsertGroupMember_eq_ok hcheck
  rw [← hR.1.groups, ← hR.1.members] at hco
  rw [hws]
  exact ⟨hsound.1.insertGroupMember hco, ⟨rfl, rfl, rfl⟩, fun _ => ⟨fun _ _ => id, rfl⟩⟩

/-- The positions and members a transaction sees depend on those committed and on nothing else. -/
theorem view_congr (ws : List Write) {c'} (hpos : c'.positions = c.positions) (hmem : c'.members = c.members) :
    (schema.view ws c').positions = (schema.view ws c).positions ∧
      (schema.view ws c').members = (schema.view ws c).members := by
  induction ws generalizing c c' with
  | nil => exact ⟨hpos, hmem⟩
  | cons w ws ih =>
    refine ih ?_ ?_
    · cases w <;> simp [schema, Database.apply, hpos]
    · cases w <;> simp [schema, Database.apply, hmem]

theorem Keeps.insertAssignment (h : Keeps tr c) (hlk : .tree ∈ tr.held) (locks : List Lock)
    (label : Stmt) {a} (hcheck : Database.CheckedAssignment (schema.view tr.writes c) id a) :
    Keeps (tr.extend [.insertAssignment id a] locks label) c := by
  intro c' hR hsound hlink
  rw [Schema.view_append] at hlink ⊢
  have hsame : SameForest (schema.view tr.writes c')
      (schema.view [.insertAssignment id a] (schema.view tr.writes c')) := ⟨fun _ => rfl, rfl, rfl, rfl, rfl⟩
  have hheld : Lock.tree ∈ tr.held ++ locks := mem_append_left _ hlk
  obtain ⟨hint, hfixed, _⟩ := h c' ⟨hR.1, fun _ => hR.2 hheld⟩ hsound (hsame.linked hlink)
  obtain ⟨hpos, hmem⟩ := view_congr tr.writes (hR.2 hheld).positions hR.1.members
  refine ⟨hint.insertAssignment ?_, hfixed.trans hsame.fixed, fun hfree => absurd hheld hfree⟩
  rw [hpos, hmem]
  exact hcheck.company

end Forest

/-! ## Org units -/

section Units

variable {c : Database} {tr : Past} {id : Uuid} {isActive : Bool} {parentId : Option Uuid} {code name : String}

theorem checkCompanyIsRoot_eq_ok {isCompany u} (h : checkCompanyIsRoot isCompany parentId = .ok u) :
    parentId = none ↔ isCompany = true := by
  unfold checkCompanyIsRoot at h
  obtain ⟨hco, h⟩ := Fallible.ite_error_eq_ok.mp h
  obtain ⟨hother, _⟩ := Fallible.ite_error_eq_ok.mp h
  exact ⟨fun hnone => not_not.mp fun hnot => hother ⟨hnot, hnone⟩,
    fun hyes => not_not.mp fun hsome => hco ⟨hyes, hsome⟩⟩

theorem writes_defaultGrantNewCompanyTx : (defaultGrantNewCompanyTx id).Writes Mild := by
  refine Prog.Writes.bind writes_query fun keys => Prog.writes_forM keys fun key _ => ?_
  exact Prog.Writes.bind (writes_authz mild_authz) fun _ => trivial

theorem createOrgUnit_wp {typeKey : String} :
    (createOrgUnit id typeKey parentId code name isActive).wp schema Sound Rely (fun _ => Finished ()) .start c := by
  unfold createOrgUnit getOrgUnitType insertOrgUnit
  simp only [Prog.wp_bind, Prog.wp_pure]
  refine Prog.wp_ofExcept fun _ _ => Prog.wp_ofExcept fun _ _ => get_wp fun c₁ isCompany _ _ htype =>
    Prog.wp_ofExcept fun _ hroot => write_wp fun c₂ hR _ hcheck => ?_
  have hroot' : parentId = none ↔ c₂.unitTypes.get? typeKey = some true := by
    rw [hR.1.unitTypes, show c₁.unitTypes.get? typeKey = some isCompany from htype, Option.some_inj]
    exact checkCompanyIsRoot_eq_ok hroot
  refine Keeps.frame (keeps_insertOrgUnit mem_cons_self rfl hcheck hroot') writes_audit fun _ _ _ h => ?_
  exact h.frame (writes_whenever writes_defaultGrantNewCompanyTx) fun _ _ _ h => h.ready

/-- A transaction that holds the lock and has written nothing, with what it knows. -/
structure Reading (K : Database → Prop) (tr : Past) (c : Database) : Prop where
  idle : tr.writes = []
  locked : .tree ∈ tr.held
  known : K c

theorem Reading.frame {α : Type} {K : Database → Prop} {p : OrgTx α} {post : α → Past → Database → Prop}
    (h : Reading K tr c) (hK : ∀ c c', Fixed c c' → Shrinks c c' → K c → K c')
    (hp : p.Writes fun _ => False) (hpost : ∀ a tr c, Reading K tr c → post a tr c) :
    p.wp schema Sound Rely post tr c := by
  refine hp.wp (fun _ _ c c' h hR => ⟨h.idle, h.locked, hK c c' hR.1 (hR.2 h.locked) h.known⟩)
    (fun tr c new locks label h hnew => ⟨?_, mem_append_left _ h.locked, h.known⟩) h hpost
  rw [Trail.extend, h.idle, eq_nil_iff_forall_not_mem.mpr hnew]
  rfl

theorem writes_checkMove {P : Write → Prop} (id : Uuid) (parentId : Option Uuid) :
    (checkMove id parentId).Writes P := by
  refine Prog.Writes.bind writes_get fun oldRoot => ?_
  cases parentId with
  | none => exact writes_whenever (Prog.Writes.bind writes_query fun _ => writes_failIf)
  | some b =>
    refine Prog.Writes.bind writes_get fun newRoot => ?_
    exact writes_whenever (Prog.Writes.bind writes_query fun _ => writes_failIf)

theorem updateOrgUnit_wp :
    (updateOrgUnit id parentId code name isActive).wp schema Sound Rely (fun _ => Finished ()) .start c := by
  unfold updateOrgUnit getOrgUnitType updateOrgUnitRow
  simp only [Prog.wp_bind, Prog.wp_pure]
  refine Prog.wp_ofExcept fun _ _ => Prog.wp_ofExcept fun _ _ => failIf_wp fun _ => lockOrgTree_wp fun c₁ _ _ => ?_
  refine Reading.frame (K := fun _ => True) ⟨rfl, mem_cons_self, trivial⟩ (fun _ _ _ _ _ => trivial)
    (writes_whenever (Prog.Writes.bind writes_query fun _ => writes_failIf)) fun _ tr c₂ hread => ?_
  refine get_wp fun c₃ existing _ _ hexi => get_wp fun c₄ isCompany hR₄ _ htype =>
    Prog.wp_ofExcept fun _ hroot => ?_
  rw [hread.idle] at hexi htype
  -- the row, as long as it is there, is the one that was read
  refine Reading.frame (K := fun c => (∀ u, c.units.get? id = some u → u = existing) ∧
      c.unitTypes.get? existing.typeKey = some isCompany)
    ⟨hread.idle, hread.locked, fun u hu => ?_, htype⟩
    (fun c c' hfixed hshr hK => ⟨fun u hu => hK.1 u (hshr.units id u hu), hfixed.unitTypes ▸ hK.2⟩)
    (writes_whenever (writes_checkMove id parentId)) fun _ tr c₅ hread => ?_
  · exact Option.some.inj (((hR₄.2 hread.locked).units id u hu).symm.trans hexi)
  refine update_wp fun old c₆ hR₆ hsound hfound => ?_
  obtain ⟨hold, hcheck⟩ := hfound
  rw [hread.idle] at hold hcheck
  obtain ⟨hrow, htype⟩ := hread.known
  cases hrow old ((hR₆.2 hread.locked).units id old hold)
  have hroot' : parentId = none ↔ c₆.unitTypes.get? existing.typeKey = some true := by
    rw [hR₆.1.unitTypes, htype, Option.some_inj]
    exact checkCompanyIsRoot_eq_ok hroot
  refine Keeps.frame ?_ writes_audit fun _ _ _ h =>
    h.frame (writes_whenever writes_defaultGrantNewCompanyTx) fun _ _ _ h => h.ready
  exact keeps_updateOrgUnit (mem_append_left _ hread.locked) (by rw [Trail.extend, hread.idle]; rfl) hold hroot'
    (checkUpdateOrgUnit_eq_ok hsound.1 hold hcheck)

theorem deleteOrgUnit_wp : (deleteOrgUnit id).wp schema Sound Rely Finished .start c := by
  unfold deleteOrgUnit
  simp only [Prog.wp_bind]
  refine Prog.wp_exec fun c₁ u new _ _ hans => ?_
  cases hans
  exact query_wp fun c₂ _ _ => failIf_wp fun _ => query_wp fun c₃ _ _ => failIf_wp fun _ =>
    deleteOrgUnitRow_wp fun c₄ _ _ => Keeps.audit_wp (keeps_deleteOrgUnit rfl)

end Units

/-! ## Positions and assignments -/

section Positions

variable {c : Database} {tr : Past} {id : Uuid} {actor : String}
  {orgUnitId positionId memberId : Uuid} {title : String} {today : Except OrgError Date}

theorem createPosition_wp {companyId} {code : String} :
    (createPosition id actor companyId code title orgUnitId).wp schema Sound Rely (fun _ => Finished ())
      .start c := by
  unfold createPosition orgUnitUnderCompany insertPosition
  simp only [Prog.wp_bind, Prog.wp_pure]
  refine Prog.wp_ofExcept fun _ _ => Prog.wp_ofExcept fun _ _ => lockOrgTree_wp fun c₁ _ _ =>
    query_wp fun c₂ _ _ => failIf_wp fun _ => write_wp fun c₃ _ _ hcheck => ?_
  refine Keeps.frame (keeps_insertPosition mem_cons_self rfl hcheck) (writes_authz mild_authz)
    fun _ _ _ h => h.audit_wp

theorem updatePosition_wp :
    (updatePosition id title orgUnitId).wp schema Sound Rely (fun _ => Finished ()) .start c := by
  unfold updatePosition getPosition orgUnitUnderCompany updatePositionRow
  simp only [Prog.wp_bind, Prog.wp_pure]
  refine Prog.wp_ofExcept fun _ _ => lockOrgTree_wp fun c₁ _ _ => get_wp fun c₂ existing _ _ _ =>
    query_wp fun c₃ _ _ => failIf_wp fun _ => update_wp fun old c₄ _ _ hfound => ?_
  exact Keeps.audit_wp (keeps_updatePosition mem_cons_self rfl hfound.1 hfound.2)

theorem insertAssignment_wp {a} {done : Unit → Past → Database → Prop} (h : Progress [.tree] tr c)
    (hdone : ∀ tr c, Progress [.tree] tr c → done () tr c) :
    (insertAssignment id a).wp schema Sound Rely done tr c := by
  refine write_wp fun c' hR _ hcheck => hdone _ c' ?_
  have h' := h.rely hR
  refine ⟨fun k hk => mem_append_left _ (h'.held hk), ?_⟩
  exact h'.keeps.insertAssignment (h'.held mem_cons_self) _ _ (Database.checkInsertAssignment_eq_ok hcheck)

theorem createAssignmentTx_wp {validFrom : Date} {post : Uuid × Assignment → Past → Database → Prop}
    (h : Progress [.tree] tr c) (hpost : ∀ a tr c, Progress [.tree] tr c → post a tr c) :
    (createAssignmentTx id actor positionId memberId validFrom).wp schema Sound Rely post tr c := by
  unfold createAssignmentTx
  simp only [Prog.wp_bind, Prog.wp_pure]
  refine insertAssignment_wp h fun _ _ h => h.frame (writes_authz mild_authz) fun _ _ _ h => ?_
  exact h.frame writes_audit fun _ tr c h => hpost _ tr c h

theorem writes_checkAssignee {P : Write → Prop} (positionId memberId : Uuid) :
    (checkAssignee positionId memberId).Writes P :=
  Prog.Writes.bind writes_get fun _ => Prog.Writes.bind writes_failIf fun _ =>
    Prog.Writes.bind writes_get fun _ => writes_failIf

theorem writes_endAssignmentTx (validTo : Date) : (endAssignmentTx id actor validTo).Writes Mild :=
  Prog.Writes.bind (writes_update (mild_endAssignment id validTo)) fun _ =>
    Prog.Writes.bind writes_query fun _ =>
      Prog.Writes.bind (writes_whenever (writes_authz mild_authz)) fun _ =>
        Prog.Writes.bind writes_audit fun _ => trivial

/-- A transaction that has the lock and has done nothing else. -/
theorem progress_of_lock {log} : Progress [.tree] ⟨[] ++ [], [] ++ [.tree], log⟩ c :=
  ⟨List.Subset.refl _, keeps_of_idle rfl⟩

theorem assignNow_wp :
    (assignNow id today actor positionId memberId).wp schema Sound Rely (fun _ => Finished ()) .start c := by
  unfold assignNow
  simp only [Prog.wp_bind]
  refine lockOrgTree_wp fun c₁ _ _ => progress_of_lock.frame (writes_checkAssignee positionId memberId)
    fun _ _ _ h => Prog.wp_ofExcept fun validFrom _ => h.frame writes_query fun held _ _ h => ?_
  cases held with
  | some r => exact Prog.wp_fail _
  | none => exact createAssignmentTx_wp h fun _ _ _ h => h.keeps.ready

theorem handover_wp {expected : Option Uuid} :
    (handover id today actor positionId memberId expected).wp schema Sound Rely (fun _ => Finished ())
      .start c := by
  unfold handover
  simp only [Prog.wp_bind]
  refine lockOrgTree_wp fun c₁ _ _ => progress_of_lock.frame (writes_checkAssignee positionId memberId)
    fun _ _ _ h => Prog.wp_ofExcept fun today _ => h.frame writes_query fun heldR _ _ h => ?_
  cases heldR with
  | none => exact Prog.wp_fail _
  | some held =>
    dsimp only
    by_cases hsame : held.2.memberId = memberId
    · rw [if_pos hsame]
      exact Prog.wp_ret h.keeps.ready
    · rw [if_neg hsame]
      simp only [Prog.wp_bind, Prog.wp_pure]
      refine failIf_wp fun _ => h.frame (writes_endAssignmentTx today) fun _ _ _ h => ?_
      exact createAssignmentTx_wp h fun _ _ _ h => h.keeps.ready

theorem createAndAssign_wp {n : NewPosition} :
    (createAndAssign today actor n).wp schema Sound Rely (fun _ => Finished ()) .start c := by
  unfold createAndAssign orgUnitUnderCompany memberCompanyID insertPosition
  simp only [Prog.wp_bind, Prog.wp_pure]
  refine Prog.wp_ofExcept fun _ _ => Prog.wp_ofExcept fun _ _ => Prog.wp_ofExcept fun _ _ => failIf_wp fun _ =>
    lockOrgTree_wp fun c₁ _ _ => query_wp fun c₂ _ _ => failIf_wp fun _ => query_wp fun c₃ _ _ =>
      failIf_wp fun _ => write_wp fun c₄ _ _ hcheck => ?_
  refine insertAssignment_wp ⟨fun k hk => ?_, keeps_insertPosition mem_cons_self rfl hcheck⟩
    fun _ _ h => h.frame (writes_whenever (writes_authz mild_authz)) fun _ _ _ h => h.keeps.audit_wp
  rw [mem_singleton.mp hk]
  exact mem_cons_self

theorem addGroupMember_wp {now : Int} {groupId} :
    (addGroupMember now actor groupId memberId).wp schema Sound Rely (fun _ => Finished ()) .start c := by
  unfold addGroupMember getGroup getMember getGroupMember
  simp only [Prog.wp_bind, Prog.wp_pure]
  refine get_wp fun c₁ group _ _ _ => failIf_wp fun _ => get_wp fun c₂ row _ _ _ => failIf_wp fun _ =>
    failIf_wp fun _ => insertGroupMember_wp (fun c₃ _ _ _ => ?_) fun c₃ _ _ hnew => ?_
  · refine Keeps.frame (keeps_of_idle rfl) writes_get fun _ _ _ h => ?_
    exact h.frame (writes_authz mild_authz) fun _ _ _ h =>
      h.frame (writes_whenever writes_audit) fun _ _ _ h => h.ready
  · refine Keeps.frame (keeps_insertGroupMember rfl hnew.2) writes_get fun _ _ _ h => ?_
    exact h.frame (writes_authz mild_authz) fun _ _ _ h =>
      h.frame (writes_whenever writes_audit) fun _ _ _ h => h.ready

end Positions

/-! ## Integrity -/

theorem prog_contract : Contract schema prog (fun _ _ => True) Sound Rely (fun _ _ => True) fun _ => Guarantee where
  refl _ _ c := ⟨Fixed.refl c, fun _ => Shrinks.refl c⟩
  trans _ _ _ _ _ := Rely.trans
  may _ _ _ _ _ _ := trivial
  compatible _ _ _ _ _ _ _ _ _ _ hdisj hG :=
    ⟨hG.1, fun hheld => hG.2 fun hheld' => hdisj _ hheld' hheld⟩
  keeps r c _ := by
    cases r with
    | createOrgUnit id typeKey parentId code name isActive => exact call_wp createOrgUnit_wp
    | updateOrgUnit id parentId code name isActive => exact call_wp updateOrgUnit_wp
    | deleteOrgUnit id => exact deleteOrgUnit_wp
    | createPosition id actor companyId code title orgUnitId => exact call_wp createPosition_wp
    | updatePosition id title orgUnitId => exact call_wp updatePosition_wp
    | assignNow id today actor positionId memberId => exact call_wp assignNow_wp
    | createAndAssign today actor n => exact call_wp createAndAssign_wp
    | handover id today actor positionId memberId expected => exact call_wp handover_wp
    | addGroupMember now actor groupId memberId => exact call_wp addGroupMember_wp

theorem fixed_of_reach {c : Database} {s : State Database Write Lock Stmt OrgError Call} (hstart : Sound c)
    (hreach : Runs.Reach (step schema prog) (fun _ _ => True) (.start c) s) : Fixed c s.committed := by
  induction hreach with
  | start => exact Fixed.refl c
  | @next s s' a hreach hgood hstep ih =>
    cases a with
    | commit t =>
      obtain ⟨r, tr, hget, _, _⟩ := step_commit hstep
      exact ih.trans (prog_contract.commit hstart hreach hgood hget hstep).1
    | begin t r | exec t | rollback t => rwa [step_committed hstep rfl]

/-- Every committed state of every run keeps the forest and the companies apart. -/
theorem committed_integrity {c : Database} {s : State Database Write Lock Stmt OrgError Call}
    (hstart : Integrity c) (hkeys : c.foreignKeys = true)
    (hreach : Runs.Reach (step schema prog) (fun _ _ => True) (.start c) s) : Integrity s.committed :=
  (prog_contract.reach ⟨hstart, linked_of_foreignKeys hkeys⟩ hreach).1

theorem integrity_office : Integrity office where
  acyclic a hcycle := by
    obtain ⟨b, hup, _⟩ := Relation.TransGen.head'_iff.mp hcycle
    obtain ⟨u, hu, hpar⟩ := node_eq_some hup
    cases mem_singleton.mp (get?_eq_some_iff.mp hu)
    cases hpar
  roots id u hu := by
    cases mem_singleton.mp (get?_eq_some_iff.mp hu)
    exact iff_of_true rfl rfl
  positions _ _ hp := nomatch get?_eq_some_iff.mp hp
  assigned _ _ ha := nomatch get?_eq_some_iff.mp ha
  grouped _ _ hrow := nomatch get?_eq_some_iff.mp hrow

/-- A territory gets a position while its deletion is under way; the deletion gives up. -/
def staffedTerritory : List (Action Call) :=
  [.begin 1 (.createOrgUnit "north" "territory" (some "acme") "NORTH" "North" true),
    .exec 1, .exec 1, .exec 1, .commit 1,
    .begin 2 (.createPosition "desk" "admin" "acme" "DESK" "Desk" "north"), .begin 3 (.deleteOrgUnit "north"),
    .exec 2, .exec 3, .exec 2, .exec 3, .exec 2, .exec 2, .exec 2, .exec 2, .commit 2, .rollback 3]

theorem committed_integrity_territory : ∃ s, staffedTerritory.foldlM (step schema prog) (.start office) = some s ∧
      (s.committed.positions.get? "desk").map Position.orgUnitId = some "north" ∧
      Integrity s.committed := by
  have hrun : (staffedTerritory.foldlM (step schema prog) (.start office)).map (fun s =>
      (s.committed.positions.get? "desk").map Position.orgUnitId) = some (some "north") := by decide +kernel
  obtain ⟨s, hs, hdesk⟩ := Option.map_eq_some_iff.mp hrun
  exact ⟨s, hs, hdesk, committed_integrity integrity_office (by decide +kernel)
    (Runs.reach_of_foldlM staffedTerritory hs fun _ _ _ => trivial)⟩

end Kiban.Org.TreeLock
