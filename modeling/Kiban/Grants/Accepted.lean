import Kiban.Grants.Handle

/-!
# What the checks of the grants route establish

One lemma for each pass, and from all of them what an accepted request is: every tuple is on the module's
`company_module` object or on an object of a type the module owns, which in a grant has its anchor in the request or
passed the anchor check.
-/

namespace Kiban

open Fallible List

section Checker

variable {l : Fragment.Loaded} {rd : Reads} {T : TupleTable} {n : Node} {subjType subjId companyId : String}
  {b : Bool}

theorem notMem_holds_of_inert {cx} (hmodel : cx.model = l.model) (h : l.inert n.objType = true) :
    n ∉ Holds cx T.toTable := by
  intro hn
  obtain ⟨e, he, _⟩ := CutFixpoint.mem_of_mem_lfp _ hn
  obtain ⟨rels, htyp, _⟩ := Option.bind_eq_some_iff.mp he
  unfold Fragment.Loaded.inert at h
  rw [← hmodel, htyp] at h
  simp at h

theorem checkerCheck_ok_iff (hrd : rd.Of T) (h : checkerCheck l rd n subjType subjId = .ok b) :
    b = true ↔ n ∈ Holds ⟨l.model, subjType, subjId, ""⟩ T.toTable := by
  have hcheck := mapError_eq_ok.mp h
  unfold Fragment.Loaded.check at hcheck
  by_cases hinert : l.inert n.objType = true
  · rw [if_pos hinert] at hcheck
    cases hcheck
    exact iff_of_false Bool.false_ne_true (notMem_holds_of_inert rfl hinert)
  · rw [if_neg hinert] at hcheck
    exact run_ok_iff (hrd.serves n subjType subjId "") hcheck

end Checker

/-- A database without failures. -/
def TupleTable.reads (T : TupleTable) : Reads where
  db := fun _ _ _ _ => T.serve fun _ => false
  anchorOf := fun objectType objectId => .ok (T.anchorOf objectType objectId)
  memberOfCompany := fun companyId memberId => .ok (companyMember companyId memberId ∈ T)

theorem TupleTable.reads_of (T : TupleTable) : T.reads.Of T where
  serves := fun _ _ _ _ => T.serve_serves _
  anchorOf := fun _ _ _ h => (Except.ok.inj h).symm
  memberOfCompany := by
    intro companyId memberId b h
    rw [← Except.ok.inj h, decide_eq_true_eq]

def Belongs (m : Model) (T : Table) (companyId subjType subjId : String) : Prop :=
  if subjType = "position" ∨ subjType = "group" then
    ⟨subjType, subjId, "company"⟩ ∈ Holds ⟨m, "company", companyId, ""⟩ T
  else if subjType = "member" then companyMember companyId subjId ∈ T
  else True

theorem need_eq_ok {α : Type} {answer : Except String α} {dependency step : String} {a} :
    need answer dependency step = .ok a ↔ answer = .ok a :=
  mapError_eq_ok

section Passes

variable {sv : Services} {l : Fragment.Loaded} {rd : Reads} {claims : Claims} {req : GrantsRequest}
  {T : TupleTable} {t : Tuple} {moduleKey : String}
  {op : GrantOp} {anchorId : String} {own : Ownership} {ownerCall : Bool} {anchors : List String}

theorem validate_eq_ok (h : req.validate sv = .ok op) : req.tuples ≠ [] ∧ (req.op = "grant" ↔ op = .grant) := by
  unfold GrantsRequest.validate at h
  have hok := (ite_error_eq_ok.mp (ite_error_eq_ok.mp (ite_error_eq_ok.mp h).2).2)
  refine ⟨(ite_error_eq_ok.mp (ite_error_eq_ok.mp h).2).1, ?_⟩
  rw [← Except.ok.inj hok.2]
  by_cases hgrant : req.op = "grant" <;> simp [hgrant]

theorem eq_append_of_trimPrefix {s pre} (h : trimPrefix s pre ≠ s) : s = pre ++ trimPrefix s pre := by
  unfold trimPrefix at h ⊢
  split at h
  · rename_i hpre
    rw [if_pos hpre, ← String.toList_inj, String.toList_append, String.toList_ofList]
    obtain ⟨rest, hrest⟩ := hpre
    rw [← hrest, drop_left]
  · exact absurd rfl h

/-- A module the request may be about: not the empty name, as no module of the registry has it. -/
theorem objectModule_eq_ok (hkeys : l.knownEnabled "" = none) (h : objectModule l req t = .ok moduleKey) :
    moduleKey ≠ "" ∧ ((t.OnObject "company_module" (req.anchorId moduleKey) ∧ l.knownEnabled moduleKey ≠ none) ∨
        (t.objectType ≠ "company_module" ∧ l.Owns moduleKey t.objectType)) := by
  unfold objectModule at h
  by_cases htype : t.objectType = "company_module"
  · rw [if_pos htype] at h
    have hok := ite_error_eq_ok.mp h
    have hkey : trimPrefix t.objectId (req.companyId ++ "/") = moduleKey := Except.ok.inj hok.2
    rw [not_or, hkey] at hok
    have hid := eq_append_of_trimPrefix (hkey.trans_ne hok.1.1)
    rw [hkey] at hid
    refine ⟨?_, .inl ⟨⟨htype, hid⟩, hok.1.2⟩⟩
    intro hempty
    rw [hempty] at hok
    exact hok.1.2 hkeys
  · rw [if_neg htype] at h
    have hok := ite_error_eq_ok.mp h
    have hkey := Except.ok.inj hok.2
    rw [hkey] at hok
    refine ⟨hok.1, .inr ⟨htype, ?_⟩⟩
    unfold Fragment.Loaded.Owns
    cases hlook : l.typeOwner.lookup t.objectType with
    | none =>
      rw [hlook] at hkey
      exact absurd hkey.symm hok.1
    | some m =>
      rw [hlook] at hkey
      exact congrArg some hkey

theorem resolveModule_eq_ok (hkeys : l.knownEnabled "" = none) (ts : List Tuple) {start}
    (h : resolveModule l req ts start = .ok moduleKey) :
    (∀ t ∈ ts, objectModule l req t = .ok moduleKey) ∧ (start ≠ "" → moduleKey = start) := by
  induction ts generalizing start with
  | nil =>
    cases h
    exact ⟨forall_mem_nil _, fun _ => rfl⟩
  | cons t ts ih =>
    obtain ⟨m, hm, h⟩ := bind_eq_ok.mp h
    have hok := ite_error_eq_ok.mp h
    have hts := ih hok.2
    have heq := hts.2 (objectModule_eq_ok hkeys hm).1
    refine ⟨forall_mem_cons.mpr ⟨heq ▸ hm, hts.1⟩, fun hstart => ?_⟩
    rw [heq]
    exact not_not.mp fun hne => hok.1 ⟨hstart, hne⟩

theorem subjectShape_eq_ok (h : subjectShape l t = .ok ()) (hrel : t.subjectRelation ≠ "") :
    l.model.defines t.subjectType t.subjectRelation = true := by
  unfold subjectShape at h
  rw [if_neg hrel] at h
  unfold Model.defines Model.relation?
  cases hlook : l.model.lookup t.subjectType with
  | none =>
    rw [hlook] at h
    cases h
  | some rels =>
    rw [hlook] at h
    have hok := ite_error_eq_ok.mp h
    simpa [Option.isSome_iff_ne_none] using hok.1

theorem subjectBelongs_eq_ok (hrd : rd.Of T) (h : subjectBelongs l rd req t = .ok ()) :
    Belongs l.model T.toTable req.companyId t.subjectType t.subjectId := by
  unfold subjectBelongs at h
  obtain ⟨b, hb, h⟩ := bind_eq_ok.mp h
  have hin := need_eq_ok.mp hb
  cases b with
  | false => cases h
  | true =>
    unfold subjectIn at hin
    unfold Belongs
    split at hin
    · rename_i hpos
      rw [if_pos hpos]
      exact (checkerCheck_ok_iff hrd hin).mp rfl
    rename_i hpos
    rw [if_neg hpos]
    split at hin
    · rename_i hmb
      rw [if_pos hmb]
      exact (hrd.memberOfCompany _ _ _ hin).mp rfl
    · rename_i hmb
      rw [if_neg hmb]
      trivial

def IsOwner (sv : Services) (claims : Claims) (moduleKey : String) : Prop :=
  claims.clientId ≠ "" ∧ ∃ owners, sv.appOwners = some (.ok owners) ∧ owners.lookup moduleKey = some claims.clientId

theorem ownership_eq_ok (h : ownership sv claims moduleKey = .ok own)
    (howner : own.ownerCall = true) : IsOwner sv claims moduleKey := by
  unfold ownership at h
  by_cases hcli : claims.clientId = ""
  · rw [if_pos hcli] at h
    cases h
    cases howner
  rw [if_neg hcli] at h
  cases hans : sv.appOwners with
  | none =>
    rw [hans] at h
    cases h
    cases howner
  | some answer =>
    rw [hans] at h
    obtain ⟨owners, hown, h⟩ := bind_eq_ok.mp h
    cases h
    refine ⟨hcli, owners, hans.trans (congrArg some (need_eq_ok.mp hown)), ?_⟩
    have hkey := of_decide_eq_true howner
    cases hlook : owners.lookup moduleKey with
    | none =>
      rw [hlook] at hkey
      exact absurd hkey.symm hcli
    | some client =>
      rw [hlook] at hkey
      exact congrArg some hkey

/-- The caller may write on the module: its owner, or a subject that passed the decision for the
module in the company.  The decision names no relation, so it is made of steps 1 to 6. -/
def MayWrite (sv : Services) (l : Fragment.Loaded) (rd : Reads) (claims : Claims)
    (req : GrantsRequest) (moduleKey : String) : Prop :=
  IsOwner sv claims moduleKey ∨
    ∃ own, ((sv.deps l rd).evaluate (grantsDecisionRequest claims req own moduleKey)).allowed = true

theorem grantsDecision_eq_ok (hown : ownership sv claims moduleKey = .ok own)
    (h : grantsDecision sv l rd claims req own moduleKey = .ok ()) :
    MayWrite sv l rd claims req moduleKey := by
  unfold grantsDecision at h
  by_cases howner : own.ownerCall = true
  · exact .inl (ownership_eq_ok hown howner)
  rw [if_neg howner] at h
  refine .inr ⟨own, ?_⟩
  by_contra hok
  rw [if_neg hok] at h
  cases h

def AdminOf (l : Fragment.Loaded) (T : TupleTable) (claims : Claims) (anchorId : String) : Prop :=
  ⟨"company_module", anchorId, "admin"⟩ ∈ Holds ⟨l.model, "user", claims.subject, ""⟩ T.toTable

theorem adminHeld_eq_ok (hrd : rd.Of T) (h : adminHeld l rd claims anchorId = .ok ()) :
    AdminOf l T claims anchorId := by
  unfold adminHeld at h
  obtain ⟨b, hb, h⟩ := bind_eq_ok.mp h
  cases b with
  | false => cases h
  | true => exact (checkerCheck_ok_iff hrd (need_eq_ok.mp hb)).mp rfl

/-- The object passes the anchor check, through its own anchor or a userset on that relation. -/
def AnchorHolds (l : Fragment.Loaded) (T : TupleTable) (anchorId : String) (t : Tuple) : Prop :=
  ⟨t.objectType, t.objectId, "company_module"⟩ ∈ Holds ⟨l.model, "company_module", anchorId, ""⟩ T.toTable

theorem objectAnchored_eq_ok
    (hrd : rd.Of T) (h : objectAnchored l rd .grant ownerCall anchorId anchors t = .ok ()) :
    t.objectKey ∈ anchors ∨ (t.relation ≠ "company_module" ∧ AnchorHolds l T anchorId t) := by
  unfold objectAnchored at h
  have hok := ite_error_eq_ok.mp h
  by_cases hkey : t.objectKey ∈ anchors
  · exact .inl hkey
  rw [if_neg hkey] at hok
  refine .inr ⟨fun hrel => hok.1 ⟨hrel, hkey, rfl⟩, ?_⟩
  obtain ⟨b, hb, h⟩ := bind_eq_ok.mp hok.2
  cases b with
  | true => exact (checkerCheck_ok_iff hrd (need_eq_ok.mp hb)).mp rfl
  | false =>
    -- only a revoke may clean up
    change cleanup rd .grant ownerCall anchorId t = .ok () at h
    unfold cleanup at h
    rw [if_neg (fun hand => nomatch hand.1)] at h
    cases h

theorem checkObjects_eq_ok (ts : List Tuple) {adminChecked}
    (h : checkObjects l rd claims op ownerCall anchorId anchors ts adminChecked = .ok ()) :
    (∀ t ∈ ts, t.objectType = "company_module" → adminChecked = true ∨ adminHeld l rd claims anchorId = .ok ()) ∧
      ∀ t ∈ ts, t.objectType ≠ "company_module" → objectAnchored l rd op ownerCall anchorId anchors t = .ok () := by
  induction ts generalizing adminChecked with
  | nil => exact ⟨forall_mem_nil _, forall_mem_nil _⟩
  | cons t ts ih =>
    unfold checkObjects at h
    rw [forall_mem_cons, forall_mem_cons]
    by_cases htype : t.objectType = "company_module"
    · rw [if_pos htype] at h
      cases adminChecked with
      | true =>
        have hts := ih h
        exact ⟨⟨fun _ => .inl rfl, fun _ _ _ => .inl rfl⟩, fun hne => absurd htype hne, hts.2⟩
      | false =>
        obtain ⟨_, hadmin, h⟩ := bind_eq_ok.mp h
        have hts := ih h
        exact ⟨⟨fun _ => .inr hadmin, fun _ _ _ => .inr hadmin⟩, fun hne => absurd htype hne, hts.2⟩
    · rw [if_neg htype] at h
      obtain ⟨_, hanc, h⟩ := bind_eq_ok.mp h
      have hts := ih h
      exact ⟨⟨fun heq => absurd heq htype, hts.1⟩, fun _ => hanc, hts.2⟩

end Passes

/-! ## Accepted requests -/

structure ModuleAccepted (sv : Services) (l : Fragment.Loaded) (rd : Reads) (claims : Claims)
    (req : GrantsRequest) (T : TupleTable) (op : GrantOp) (moduleKey : String) : Prop where
  object : ∀ t ∈ req.tuples,
    (t.OnObject "company_module" (req.anchorId moduleKey) ∧ l.knownEnabled moduleKey ≠ none ∧
      AdminOf l T claims (req.anchorId moduleKey)) ∨
    (t.objectType ≠ "company_module" ∧ l.Owns moduleKey t.objectType)
  anchored : op = .grant → ∀ t ∈ req.tuples, t.objectType ≠ "company_module" →
    t.objectKey ∈ inRequestAnchor .grant (req.anchorId moduleKey) req.tuples ∨
      (t.relation ≠ "company_module" ∧ AnchorHolds l T (req.anchorId moduleKey) t)
  shape : op = .grant → ∀ t ∈ req.tuples, t.subjectRelation ≠ "" →
    l.model.defines t.subjectType t.subjectRelation = true
  belongs : op = .grant → ∀ t ∈ req.tuples, Belongs l.model T.toTable req.companyId t.subjectType t.subjectId
  caller : MayWrite sv l rd claims req moduleKey

structure AppointmentAccepted (sv : Services) (l : Fragment.Loaded) (rd : Reads) (claims : Claims)
    (req : GrantsRequest) : Prop where
  tuples : req.IsCompanyAdminAppointment
  allowed : ((sv.deps l rd).evaluate (appointmentRequest claims req)).allowed = true

section

variable {sv : Services} {l : Fragment.Loaded} {rd : Reads} {claims : Claims} {req : GrantsRequest}
  {T : TupleTable} {op : GrantOp} {auth : Authorized}

theorem subjects_eq_ok (h : subjects l rd req .grant = .ok ()) : (∀ t ∈ req.tuples, subjectShape l t = .ok ()) ∧
      ∀ t ∈ req.tuples, subjectBelongs l rd req t = .ok () := by
  unfold subjects at h
  obtain ⟨_, hshape, h⟩ := bind_eq_ok.mp h
  exact ⟨forM_eq_ok.mp hshape, forM_eq_ok.mp h⟩

theorem moduleGrants_eq_ok (hkeys : l.knownEnabled "" = none) (hrd : rd.Of T)
    (h : moduleGrants sv l rd claims req op = .ok auth) :
    auth.op = op ∧ ModuleAccepted sv l rd claims req T op auth.moduleKey := by
  unfold moduleGrants at h
  obtain ⟨moduleKey, hmodu, h⟩ := bind_eq_ok.mp h
  obtain ⟨_, hsub, h⟩ := bind_eq_ok.mp h
  obtain ⟨own, hown, h⟩ := bind_eq_ok.mp h
  obtain ⟨_, _, h⟩ := bind_eq_ok.mp h
  obtain ⟨_, hdec, h⟩ := bind_eq_ok.mp h
  obtain ⟨_, _, h⟩ := bind_eq_ok.mp h
  obtain ⟨_, hobjs, h⟩ := bind_eq_ok.mp h
  cases h
  have hmodul := (resolveModule_eq_ok hkeys req.tuples hmodu).1
  have hpass := checkObjects_eq_ok req.tuples hobjs
  refine ⟨rfl, fun t ht => ?_, fun hop t ht htype => ?_, fun hop t ht => ?_, fun hop t ht => ?_,
    grantsDecision_eq_ok hown hdec⟩
  · rcases (objectModule_eq_ok hkeys (hmodul t ht)).2 with hmod | howns
    · rcases hpass.1 t ht hmod.1.1 with hfalse | hadmin
      · cases hfalse
      · exact .inl ⟨hmod.1, hmod.2, adminHeld_eq_ok hrd hadmin⟩
    · exact .inr howns
  · have hanc := hpass.2 t ht htype
    rw [hop] at hanc
    exact objectAnchored_eq_ok hrd hanc
  · rw [hop] at hsub
    exact subjectShape_eq_ok ((subjects_eq_ok hsub).1 t ht)
  · rw [hop] at hsub
    exact subjectBelongs_eq_ok hrd ((subjects_eq_ok hsub).2 t ht)

theorem appointmentGrants_eq_ok (hapt : req.IsCompanyAdminAppointment)
    (h : appointmentGrants sv l rd claims req op = .ok auth) :
    auth.op = op ∧ AppointmentAccepted sv l rd claims req := by
  unfold appointmentGrants at h
  obtain ⟨_, hok, h⟩ := bind_eq_ok.mp h
  cases h
  refine ⟨rfl, hapt, ?_⟩
  unfold appointment at hok
  by_contra hden
  rw [if_neg hden] at hok
  cases hok

theorem checkGrants_eq_ok (hkeys : l.knownEnabled "" = none) (hrd : rd.Of T)
    (h : checkGrants sv rd claims req (.ok l) = .ok auth) :
    req.tuples ≠ [] ∧ (req.op = "grant" ↔ auth.op = .grant) ∧ (AppointmentAccepted sv l rd claims req ∨
        ModuleAccepted sv l rd claims req T auth.op auth.moduleKey) := by
  unfold checkGrants at h
  obtain ⟨op, hop, h⟩ := bind_eq_ok.mp h
  obtain ⟨_, hl, h⟩ := bind_eq_ok.mp h
  cases hl
  have hvalid := validate_eq_ok hop
  by_cases hapt : req.IsCompanyAdminAppointment
  · rw [if_pos hapt] at h
    have hacc := appointmentGrants_eq_ok hapt h
    rw [hacc.1]
    exact ⟨hvalid.1, hvalid.2, .inl hacc.2⟩
  · rw [if_neg hapt] at h
    have hacc := moduleGrants_eq_ok hkeys hrd h
    rw [hacc.1]
    exact ⟨hvalid.1, hvalid.2, .inr hacc.2⟩

theorem checkGrants_accepted {rows known} (hload : Fragment.load rows known = .ok l)
    (hkeys : known "" = none) (hrd : rd.Of T) (h : checkGrants sv rd claims req (.ok l) = .ok auth) :
    (req.op = "grant" ↔ auth.op = .grant) ∧ (AppointmentAccepted sv l rd claims req ∨
        ModuleAccepted sv l rd claims req T auth.op auth.moduleKey) := by
  have hknown : l.knownEnabled "" = none := by
    rw [(Fragment.load_eq_ok hload).2.2]
    exact hkeys
  exact (checkGrants_eq_ok hknown hrd h).2

end

/-! ## Anchors of the objects of a module -/

variable {anchorId : String}

def anchorOn (objectType objectId anchorId : String) : Tuple :=
  ⟨objectType, objectId, "company_module", "company_module", anchorId, ""⟩

theorem eq_anchorOn_of_isAnchorAt {t} (h : t.IsAnchorAt anchorId) :
    t = anchorOn t.objectType t.objectId anchorId := by
  obtain ⟨hrel, htype, hid, hsub⟩ := h
  cases t
  simp_all [anchorOn]

theorem mem_inRequestAnchor {key ts} : key ∈ inRequestAnchor .grant anchorId ts ↔
      ∃ u ∈ ts, u.IsAnchorAt anchorId ∧ u.objectKey = key := by
  simp [inRequestAnchor, and_assoc]

/-- The anchor relation of an owned type is direct: it holds through the anchor row itself or
through a userset row. -/
theorem anchorHolds_row {l T t} (hthis : l.model.relation? t.objectType "company_module" = some .this)
    (h : AnchorHolds l T anchorId t) :
    anchorOn t.objectType t.objectId anchorId ∈ T ∨
      ∃ u ∈ T, u.OnObject t.objectType t.objectId ∧ u.relation = "company_module" ∧ u.subjectRelation ≠ "" := by
  obtain ⟨r, hr, hrow⟩ := (mem_holds_iff hthis).mp h
  have hmem := Table.mem_rowsFor.mp hr
  rcases hrow with ⟨hdir, hsubj⟩ | ⟨huser, _⟩
  · left
    obtain ⟨styp, sid, srel⟩ := r
    cases hdir
    cases hsubj.1
    cases hsubj.2
    exact hmem
  · exact .inr ⟨_, hmem, ⟨rfl, rfl⟩, rfl, huser⟩

end Kiban
