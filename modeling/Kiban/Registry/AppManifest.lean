import Kiban.Registry.Registry

/-!
# The validation of an app's manifest

`validate` as it runs: the test of a feature cuts it at the length of the key, and a feature that is shorter than
that makes it panic.  `AppManifest.validate` tells which manifests are accepted; here is also which are answered.
-/

namespace Kiban.Registry

open List Option

/-- `f[:n]`, or nothing when it panics.  Both texts it is used on have only ASCII characters. -/
def sliceTo (f : String) (n : Nat) : Option String :=
  if n ≤ f.length then some (.ofList (f.toList.take n)) else none

def refusedFeature (f : String) : RegistryError :=
  .invalidManifest "features" ("each feature key must be <key>.<name>, got " ++ f)

def checkFeature (key f : String) : Option (Except RegistryError Unit) :=
  if ¬ featureKeyPattern f then some (.error (refusedFeature f))
  else
    match sliceTo f (key.length + 1) with
    | none => none
    | some start => if start ≠ key ++ "." then some (.error (refusedFeature f)) else some (.ok ())

def checkFeatures (key : String) : List String → Option (Except RegistryError Unit)
  | [] => some (.ok ())
  | f :: fs =>
    match checkFeature key f with
    | none => none
    | some (.error err) => some (.error err)
    | some (.ok ()) => checkFeatures key fs

namespace AppManifest

/-- What `validate` returns, or nothing when it panics. -/
def validateRun (m : AppManifest) : Option (Except RegistryError Unit) :=
  if ¬ moduleKeyPattern m.key then
    some (.error (.invalidManifest "key" "must match ^[a-z][a-z0-9_]\x7b1,31\x7d$"))
  else if m.displayName = "" then some (.error (.invalidManifest "displayName" "required"))
  else if m.version = "" then some (.error (.invalidManifest "version" "required"))
  else if ¬ serviceClientIDPattern m.serviceClientId then
    some (.error (.invalidManifest "serviceClientId" "must match ^[a-z][a-z0-9_-]\x7b1,63\x7d$"))
  else if m.authzFragment.isNone then some (.error (.invalidManifest "authzFragment" "required"))
  else checkFeatures m.key m.features

/-! ## What is asked of a manifest -/

structure FieldsValid (m : AppManifest) : Prop where
  key : moduleKeyPattern m.key = true
  displayName : m.displayName ≠ ""
  version : m.version ≠ ""
  serviceClientId : serviceClientIDPattern m.serviceClientId = true
  authzFragment : m.authzFragment.isSome = true

end AppManifest

/-- A dotted lower-case key whose text before the first dot is the key of the module. -/
def FeatureOf (key f : String) : Prop :=
  featureKeyPattern f = true ∧ f.toList.takeWhile (· ≠ '.') = key.toList

namespace AppManifest

structure Valid (m : AppManifest) : Prop extends m.FieldsValid where
  features : ∀ f ∈ m.features, FeatureOf m.key f

/-- `validate` returns, and accepts exactly what is valid. -/
def Validates (m : AppManifest) : Prop := ∃ r, m.validateRun = some r ∧ (r = .ok () ↔ m.Valid)

end AppManifest

/-- A dotted key is longer than the module's key, where only features of the module stand before it. -/
def LongEnough (key : String) (features : List String) : Prop :=
  ∀ before f after, features = before ++ f :: after → (∀ g ∈ before, FeatureOf key g) →
    featureKeyPattern f = true → key.length < f.length

/-! ## The test of one feature -/

theorem dot_notMem_of_moduleKeyPattern {key} (h : moduleKeyPattern key = true) : '.' ∉ key.toList := by
  unfold moduleKeyPattern keyPattern at h
  split at h
  · cases h
  rename_i c cs hcs
  rw [hcs]
  simp only [Bool.and_eq_true, List.all_eq_true] at h
  intro hdot
  rcases mem_cons.mp hdot with rfl | hdot
  · cases h.1.1.1
  · cases h.2 '.' hdot

theorem dot_mem_of_featureKeyPattern {f} (h : featureKeyPattern f = true) : '.' ∈ f.toList := by
  by_contra hdot
  have hone : f.toList.splitOn '.' = [f.toList] :=
    splitOnP_eq_singleton fun c hc => by
      simpa using fun hc' : c = '.' => hdot (hc' ▸ hc)
  simp [featureKeyPattern, hone] at h

section

variable {key f : String} {fs : List String}

theorem take_eq_iff_takeWhile_eq (hkey : '.' ∉ key.toList) (hf : '.' ∈ f.toList) :
    f.toList.take (key.length + 1) = key.toList ++ ['.'] ↔ f.toList.takeWhile (· ≠ '.') = key.toList := by
  obtain ⟨start, rest, hsplit, hstart⟩ := eq_append_cons_of_mem hf
  have hwhile : f.toList.takeWhile (· ≠ '.') = start := by
    rw [hsplit, takeWhile_append_of_pos fun c hc => by simpa using fun hc' : c = '.' => hstart (hc' ▸ hc)]
    simp
  rw [hwhile]
  constructor
  · intro htake
    have hwhole : start ++ '.' :: rest = key.toList ++ '.' :: f.toList.drop (key.length + 1) := by
      rw [← hsplit, ← singleton_append, ← append_assoc, ← htake, take_append_drop]
    exact (Separator.cons_split_left hstart hkey hwhole).1
  · rintro rfl
    have hlen : key.length + 1 = (key.toList ++ ['.']).length := by
      rw [length_append, String.length_toList]
      rfl
    have hwhole : f.toList = key.toList ++ ['.'] ++ rest := by
      rw [hsplit, append_assoc]
      rfl
    rw [hwhole, hlen, take_left]

/-- What the body of the loop does, by the feature it is at. -/
theorem checkFeature_of_not (h : ¬ featureKeyPattern f) : checkFeature key f = some (.error (refusedFeature f)) :=
  if_pos h

theorem checkFeature_of_short (h : featureKeyPattern f = true) (hshort : f.length ≤ key.length) :
    checkFeature key f = none := by
  have hslice : sliceTo f (key.length + 1) = none := if_neg (by omega)
  rw [checkFeature, if_neg (not_not_intro h), hslice]

theorem checkFeature_of_long (hkey : '.' ∉ key.toList) (h : featureKeyPattern f = true)
    (hlong : key.length < f.length) :
    ∃ r, checkFeature key f = some r ∧ (r = .ok () ↔ FeatureOf key f) := by
  have hslice : sliceTo f (key.length + 1) = some (.ofList (f.toList.take (key.length + 1))) := if_pos hlong
  have hsame : String.ofList (f.toList.take (key.length + 1)) = key ++ "." ↔ FeatureOf key f := by
    rw [← String.toList_inj, String.toList_ofList, String.toList_append]
    rw [FeatureOf, and_iff_right h, ← take_eq_iff_takeWhile_eq hkey (dot_mem_of_featureKeyPattern h)]
    rfl
  rw [checkFeature, if_neg (not_not_intro h), hslice]
  dsimp only
  by_cases hstart : String.ofList (f.toList.take (key.length + 1)) = key ++ "."
  · rw [if_neg (not_not_intro hstart)]
    exact ⟨_, rfl, iff_of_true rfl (hsame.mp hstart)⟩
  · rw [if_pos hstart]
    exact ⟨_, rfl, iff_of_false nofun (mt hsame.mpr hstart)⟩

theorem checkFeature_eq_ok_iff : checkFeature key f = some (.ok ()) ↔ featureOf key f = true := by
  have hpfx : sliceTo f (key.length + 1) = some (key ++ ".") ↔ (key ++ ".").toList <+: f.toList := by
    have hlen : (key ++ ".").toList.length = key.length + 1 := by
      rw [String.length_toList, String.length_append]
      rfl
    rw [prefix_iff_eq_take, hlen, sliceTo]
    constructor
    · intro h
      obtain ⟨_, hslice⟩ := ite_none_right_eq_some.mp h
      rw [← Option.some.inj hslice, String.toList_ofList]
    intro h
    have hle : key.length + 1 ≤ f.length := by
      have hlong := congrArg List.length h
      rw [hlen, length_take, String.length_toList] at hlong
      omega
    rw [if_pos hle, ← h, String.ofList_toList]
  rw [featureOf, Bool.and_eq_true, isPrefixOf_iff_prefix, ← hpfx, checkFeature]
  by_cases hpat : featureKeyPattern f = true
  · rw [if_neg (not_not_intro hpat), and_iff_right hpat]
    cases sliceTo f (key.length + 1) with
    | none => exact iff_of_false nofun nofun
    | some start =>
      dsimp only
      by_cases hstart : start = key ++ "."
      · rw [if_neg (not_not_intro hstart), hstart]
        exact iff_of_true rfl rfl
      · rw [if_pos hstart]
        exact iff_of_false nofun fun h => hstart (Option.some.inj h)
  · rw [if_pos hpat]
    exact iff_of_false nofun fun h => hpat h.1

/-! ## The loop -/

theorem longEnough_cons : LongEnough key (f :: fs) ↔
    (featureKeyPattern f = true → key.length < f.length) ∧ (FeatureOf key f → LongEnough key fs) := by
  constructor
  · intro h
    refine ⟨h [] f fs rfl nofun, fun hf before g after hfs hbef => ?_⟩
    refine h (f :: before) g after (by rw [hfs]; rfl) fun g' hg' => ?_
    rcases mem_cons.mp hg' with rfl | hg'
    · exact hf
    · exact hbef g' hg'
  · rintro ⟨hhead, htail⟩ before g after hfs hbef
    cases before with
    | nil =>
      cases hfs
      exact hhead
    | cons b before =>
      obtain ⟨rfl, hrest⟩ := List.cons.inj hfs
      exact htail (hbef f mem_cons_self) before g after hrest fun g' hg' =>
        hbef g' (mem_cons_of_mem _ hg')

theorem checkFeatures_iff (hkey : '.' ∉ key.toList) (fs : List String) :
    (∃ r, checkFeatures key fs = some r ∧ (r = .ok () ↔ ∀ f ∈ fs, FeatureOf key f)) ↔ LongEnough key fs := by
  induction fs with
  | nil => exact iff_of_true ⟨_, rfl, iff_of_true rfl nofun⟩ fun before _ _ h => by cases before <;> cases h
  | cons f fs ih =>
    rw [longEnough_cons]
    by_cases hpat : featureKeyPattern f = true
    · by_cases hlong : key.length < f.length
      · obtain ⟨r, hr, hok⟩ := checkFeature_of_long hkey hpat hlong
        rw [checkFeatures, hr, and_iff_right fun _ => hlong]
        cases r with
        | ok u =>
          have hf : FeatureOf key f := hok.mp rfl
          rw [forall_prop_of_true hf, ← ih]
          simp only [forall_mem_cons, hf, true_and]
        | error err =>
          have hf : ¬ FeatureOf key f := fun hf => by cases hok.mpr hf
          refine iff_of_true ⟨_, rfl, iff_of_false nofun fun hall => hf (hall f mem_cons_self)⟩ ?_
          exact fun hf' => absurd hf' hf
      · -- the slice is out of bounds, and nothing is returned
        rw [checkFeatures, checkFeature_of_short hpat (Nat.le_of_not_lt hlong)]
        refine iff_of_false ?_ fun h => hlong (h.1 hpat)
        rintro ⟨r, hr, _⟩
        cases hr
    · rw [checkFeatures, checkFeature_of_not hpat]
      have hf : ¬ FeatureOf key f := fun hf => hpat hf.1
      refine iff_of_true ⟨_, rfl, iff_of_false nofun fun hall => hf (hall f mem_cons_self)⟩ ?_
      exact ⟨fun h => absurd h hpat, fun hf' => absurd hf' hf⟩

end

namespace AppManifest

variable {m : AppManifest}

theorem validateRun_of_fieldsValid (h : m.FieldsValid) : m.validateRun = checkFeatures m.key m.features := by
  have hfra : ¬ m.authzFragment.isNone = true := by
    rw [isNone_iff_eq_none]
    exact isSome_iff_ne_none.mp h.authzFragment
  rw [validateRun, if_neg (not_not_intro h.key), if_neg h.displayName, if_neg h.version,
    if_neg (not_not_intro h.serviceClientId), if_neg hfra]

theorem validateRun_of_not_fieldsValid (h : ¬ m.FieldsValid) : ∃ err, m.validateRun = some (.error err) := by
  unfold validateRun
  split
  · exact ⟨_, rfl⟩
  split
  · exact ⟨_, rfl⟩
  split
  · exact ⟨_, rfl⟩
  split
  · exact ⟨_, rfl⟩
  split
  · exact ⟨_, rfl⟩
  · rename_i hkey hname hver hcli hfra
    have hsome : m.authzFragment.isSome = true :=
      isSome_iff_ne_none.mpr (mt isNone_iff_eq_none.mpr hfra)
    exact absurd ⟨not_not.mp hkey, hname, hver, not_not.mp hcli, hsome⟩ h

theorem checkFeature_cases (key f : String) : checkFeature key f = some (.ok ()) ∨
    checkFeature key f = some (.error (refusedFeature f)) ∨ checkFeature key f = none := by
  unfold checkFeature
  split
  · exact .inr (.inl rfl)
  split
  · exact .inr (.inr rfl)
  · split
    · exact .inr (.inl rfl)
    · exact .inl rfl

/-- Where `validate` returns, it returns what the registry's operations are modelled with, and where it panics
they refuse. -/
theorem validateRun_cases (m : AppManifest) :
    m.validateRun = some m.validate ∨ (m.validateRun = none ∧ ∃ err, m.validate = .error err) := by
  have hloop : ∀ fs : List String,
      (checkFeatures m.key fs = some (.ok ()) ∧ fs.find? (fun f => ¬ featureOf m.key f) = none) ∨
      ∃ f, fs.find? (fun f => ¬ featureOf m.key f) = some f ∧
        (checkFeatures m.key fs = some (.error (refusedFeature f)) ∨ checkFeatures m.key fs = none) := by
    intro fs
    induction fs with
    | nil => exact .inl ⟨rfl, rfl⟩
    | cons f fs ih =>
      rcases checkFeature_cases m.key f with hok | hbad
      · have hf : featureOf m.key f = true := checkFeature_eq_ok_iff.mp hok
        rw [checkFeatures, hok, find?_cons_of_neg (by simpa using hf)]
        exact ih
      have hf : ¬ featureOf m.key f = true := by
        intro hf
        rw [checkFeature_eq_ok_iff.mpr hf] at hbad
        rcases hbad with hbad | hbad
        · cases hbad
        · cases hbad
      rw [checkFeatures, find?_cons_of_pos (by simpa using hf)]
      refine .inr ⟨f, rfl, ?_⟩
      rcases hbad with hbad | hbad
      · rw [hbad]
        exact .inl rfl
      · rw [hbad]
        exact .inr rfl
  unfold validateRun validate
  split
  · exact .inl rfl
  split
  · exact .inl rfl
  split
  · exact .inl rfl
  split
  · exact .inl rfl
  split
  · exact .inl rfl
  rcases hloop m.features with ⟨hok, hnone⟩ | ⟨f, hf, herror | hpanic⟩
  · rw [hok, hnone]
    exact .inl rfl
  · rw [herror, hf]
    exact .inl rfl
  · rw [hf]
    exact .inr ⟨hpanic, _, rfl⟩

/-- A manifest is answered as it should be unless the loop comes to a dotted key that is too short to be cut. -/
theorem validates_iff (m : AppManifest) : m.Validates ↔ (m.FieldsValid → LongEnough m.key m.features) := by
  by_cases hfie : m.FieldsValid
  · have hvalid : m.Valid ↔ ∀ f ∈ m.features, FeatureOf m.key f := ⟨fun h => h.features, fun h => ⟨hfie, h⟩⟩
    rw [Validates, validateRun_of_fieldsValid hfie, hvalid, forall_prop_of_true hfie]
    exact checkFeatures_iff (dot_notMem_of_moduleKeyPattern hfie.key) m.features
  · obtain ⟨err, herr⟩ := validateRun_of_not_fieldsValid hfie
    refine iff_of_true ⟨_, herr, iff_of_false nofun fun h => hfie h.toFieldsValid⟩ ?_
    exact fun h => absurd h hfie

/-- The key of the app is longer than a feature that it declares. -/
def documents : AppManifest where
  key := "documents"
  displayName := "Documents"
  version := "1.0.0"
  serviceClientId := "documents-backend"
  features := ["docs.view"]
  authzFragment := some .null

theorem documents_panics : ¬ documents.Validates := by
  rintro ⟨r, hr, _⟩
  have hpanic : documents.validateRun = none := by decide +kernel
  cases hpanic.symm.trans hr

end AppManifest

end Kiban.Registry
