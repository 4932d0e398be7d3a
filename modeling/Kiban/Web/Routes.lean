import Kiban.Lib.Fallible
import Kiban.Lib.Keyed
import Mathlib.Data.List.Pairwise
import Mathlib.Data.List.Sort

/-!
# The routes of the shell's modules

A module of the shell's catalog lists its pages as path patterns.  `assertValidModuleCatalog` refuses catalogs in which
two patterns of a module could both be the most specific match of a path; `matchModuleRoute` sorts the patterns by
specificity and takes the first that matches.
-/

namespace Kiban.Web

open List Option

variable {routes : List ModuleRouteDefinition} {path : List String} {route : ModuleRouteDefinition}
  {expected actual moduleKey : String}

inductive ModuleScope where
  | global
  | company
deriving DecidableEq

structure ModuleRouteDefinition where
  (id path featureKey remoteExport : String)
deriving DecidableEq

structure ModuleDefinition where
  moduleKey : String
  scope : ModuleScope
  routes : List ModuleRouteDefinition

abbrev ModuleCatalog := List ModuleDefinition

/-! ## Paths -/

def trimSlashes (path : List Char) : List Char :=
  ((path.dropWhile (· = '/')).reverse.dropWhile (· = '/')).reverse

def normalizeModulePath (modulePath : Option String) : String :=
  let trimmed := trimSlashes (modulePath.getD "").toList
  if trimmed = [] then "/" else String.ofList ('/' :: trimmed)

def splitPath (path : String) : List String :=
  let normalized := normalizeModulePath (some path)
  if normalized = "/" then [] else ((normalized.toList.drop 1).splitOn '/').map String.ofList

def isParam (segment : String) : Bool := segment.toList.head? = some ':'

def paramName (segment : String) : String := String.ofList (segment.toList.drop 1)

def structuralRoutePath (path : String) : String :=
  "/".intercalate ((splitPath path).map fun segment => if isParam segment then ":" else segment)

def routeSpecificity (route : ModuleRouteDefinition) : Nat × Nat :=
  (((splitPath route.path).filter fun segment => !isParam segment).length, (splitPath route.path).length)

def segmentsOverlap (left right : String) : Bool := left = right || isParam left || isParam right

def routesOverlap (left right : ModuleRouteDefinition) : Bool :=
  if (splitPath left.path).length ≠ (splitPath right.path).length then false
  else if (routeSpecificity left).1 ≠ (routeSpecificity right).1 then false
  else ((splitPath left.path).zip (splitPath right.path)).all fun segments => segmentsOverlap segments.1 segments.2

/-! ## Validation -/

/-- `/^[A-Za-z][A-Za-z0-9_]*$/` -/
def isParamName (name : String) : Bool :=
  match name.toList with
  | [] => false
  | c :: rest => c.isAlpha && rest.all fun c => c.isAlphanum || c = '_'

/-- The loop over a route's segments, with the names of the params so far. -/
def validateSegments (moduleKey : String) (route : ModuleRouteDefinition) :
    List String → List String → Except String Unit
  | _, [] => .ok ()
  | paramNames, segment :: segments =>
    if segment = "" then
      .error ("Module " ++ moduleKey ++ " route " ++ route.id ++ " contains an empty path segment: " ++ route.path)
    else if !isParam segment then validateSegments moduleKey route paramNames segments
    else if !isParamName (paramName segment) then
      .error ("Module " ++ moduleKey ++ " route " ++ route.id ++ " has an invalid param name: " ++ segment)
    else if paramName segment ∈ paramNames then
      .error ("Module " ++ moduleKey ++ " route " ++ route.id ++ " repeats param :" ++ paramName segment)
    else validateSegments moduleKey route (paramName segment :: paramNames) segments

def validateRouteDefinition (moduleKey : String) (route : ModuleRouteDefinition) : Except String Unit :=
  validateSegments moduleKey route [] (splitPath route.path)

/-- The loop over a module's routes, with those that have been validated. -/
def validateRoutes (moduleKey : String) :
    List ModuleRouteDefinition → List ModuleRouteDefinition → Except String Unit
  | _, [] => .ok ()
  | validatedRoutes, route :: routes => do
    validateRouteDefinition moduleKey route
    if validatedRoutes.any fun candidate => candidate.id = route.id then
      .error ("Duplicate route id in module " ++ moduleKey ++ ": " ++ route.id)
    else if validatedRoutes.any fun candidate =>
        structuralRoutePath candidate.path = structuralRoutePath route.path then
      .error ("Ambiguous route path in module " ++ moduleKey ++ ": " ++ route.path)
    else if validatedRoutes.any fun candidate => routesOverlap candidate route then
      .error ("Ambiguous overlapping route path in module " ++ moduleKey ++ ": " ++ route.path)
    else validateRoutes moduleKey (route :: validatedRoutes) routes

/-- The loop over the modules, with the keys so far. -/
def validateModules : List String → ModuleCatalog → Except String Unit
  | _, [] => .ok ()
  | moduleKeys, m :: modules =>
    if m.moduleKey ∈ moduleKeys then .error ("Duplicate module key in catalog: " ++ m.moduleKey)
    else do
      validateRoutes m.moduleKey [] m.routes
      validateModules (m.moduleKey :: moduleKeys) modules

def assertValidModuleCatalog (catalog : ModuleCatalog) : Except String Unit := validateModules [] catalog

/-! ## Matching -/

abbrev Params := Keyed.Table String String

/-- `params[name] = value`, which for a text does nothing under `__proto__`. -/
def setParam (params : Params) (name value : String) : Params :=
  if name = "__proto__" then params else params.upsert name value

/-- The loop over the segments of a route and of a path of the same length. -/
def matchSegments : Params → List String → List String → Option Params
  | params, expected :: routeSegments, actual :: actualSegments =>
    if isParam expected then
      if actual = "" then none
      else matchSegments (setParam params (paramName expected) actual) routeSegments actualSegments
    else if expected ≠ actual then none
    else matchSegments params routeSegments actualSegments
  | params, _, _ => some params

def matchRoute (route : ModuleRouteDefinition) (actualSegments : List String) : Option Params :=
  if (splitPath route.path).length ≠ actualSegments.length then none
  else matchSegments .empty (splitPath route.path) actualSegments

def compareRoutes (left right : ModuleRouteDefinition) : Int :=
  let static : Int := (routeSpecificity right).1 - (routeSpecificity left).1
  if static ≠ 0 then static else (routeSpecificity right).2 - (routeSpecificity left).2

/-- Sorting is stable, so the order of the candidates does not depend on how it is done. -/
def matchModuleRoute (routes : List ModuleRouteDefinition) (modulePath : Option String) :
    Option (ModuleRouteDefinition × Params) :=
  (routes.insertionSort fun left right => compareRoutes left right ≤ 0).findSome? fun route =>
    (matchRoute route (splitPath (modulePath.getD ""))).map fun params => (route, params)

/-! ## The most specific match -/

def SegmentMatches (expected actual : String) : Prop :=
  if isParam expected then actual ≠ "" else expected = actual

def Matches (route : ModuleRouteDefinition) (path : List String) : Prop :=
  List.Forall₂ SegmentMatches (splitPath route.path) path

/-- The route matches the path, and every other one that does has fewer static segments. -/
structure BestMatch (routes : List ModuleRouteDefinition) (path : List String) (route : ModuleRouteDefinition) :
    Prop where
  mem : route ∈ routes
  fits : Matches route path
  best : ∀ other ∈ routes, Matches other path → other ≠ route →
    (routeSpecificity other).1 < (routeSpecificity route).1

theorem BestMatch.unique {route'} (h : BestMatch routes path route)
    (h' : BestMatch routes path route') : route = route' := by
  by_contra hne
  have hlt := h.best route' h'.mem h'.fits (Ne.symm hne)
  have hgt := h'.best route h.mem h.fits hne
  omega

theorem segmentMatches_param (h : isParam expected = true) : SegmentMatches expected actual ↔ actual ≠ "" := by
  rw [SegmentMatches, if_pos h]

theorem segmentMatches_static (h : isParam expected = false) :
    SegmentMatches expected actual ↔ expected = actual := by
  rw [SegmentMatches, if_neg (by simp [h])]

theorem matchSegments_isSome (params : Params) (route path : List String) (hlen : route.length = path.length) :
    (matchSegments params route path).isSome = true ↔ List.Forall₂ SegmentMatches route path := by
  induction route generalizing path params with
  | nil =>
    cases path with
    | nil => exact iff_of_true rfl .nil
    | cons actual path => cases hlen
  | cons expected route ih =>
    cases path with
    | nil => cases hlen
    | cons actual path =>
      have hrest : route.length = path.length := Nat.succ.inj hlen
      rw [forall₂_cons]
      unfold matchSegments
      cases hparam : isParam expected with
      | true =>
        rw [segmentMatches_param hparam, if_pos rfl]
        by_cases hempty : actual = ""
        · simp [hempty]
        · rw [if_neg hempty, ih _ path hrest, and_iff_right hempty]
      | false =>
        rw [segmentMatches_static hparam, if_neg Bool.false_ne_true]
        by_cases hsame : expected = actual
        · rw [if_neg (not_not.mpr hsame), ih _ path hrest, and_iff_right hsame]
        · simp [hsame]

theorem matchRoute_isSome : (matchRoute route path).isSome = true ↔ Matches route path := by
  unfold matchRoute
  split
  · rename_i hlen
    refine iff_of_false (by simp) fun h => hlen h.length_eq
  · rename_i hlen
    exact matchSegments_isSome .empty _ path (not_not.mp hlen)

instance : Std.Total fun left right => compareRoutes left right ≤ 0 where
  total left right := by
    unfold compareRoutes
    grind

instance : IsTrans ModuleRouteDefinition fun left right => compareRoutes left right ≤ 0 where
  trans a b c hab hbc := by
    unfold compareRoutes at *
    grind

theorem Matches.overlap {left right} (hleft : Matches left path) (hright : Matches right path)
    (hsta : (routeSpecificity left).1 = (routeSpecificity right).1) :
    routesOverlap left right = true := by
  have hlen : (splitPath left.path).length = (splitPath right.path).length :=
    hleft.length_eq.trans hright.length_eq.symm
  unfold routesOverlap
  rw [if_neg (not_not.mpr hlen), if_neg (not_not.mpr hsta), List.all_eq_true]
  unfold Matches at hleft hright
  generalize splitPath left.path = l at hleft
  generalize splitPath right.path = r at hright
  induction hleft generalizing r with
  | nil => simp
  | @cons a c l path hseg hrest ih =>
    obtain ⟨b, r, hseg', hrest', rfl⟩ := forall₂_cons_right_iff.mp hright
    rintro ⟨x, y⟩ hmem
    rw [zip_cons_cons, mem_cons] at hmem
    obtain heq | hmem := hmem
    · cases heq
      unfold segmentsOverlap
      unfold SegmentMatches at hseg hseg'
      grind
    · exact ih r hrest' (x, y) hmem

/-! ## What validation gives -/

theorem validateRoutes_apart {validated} (h : validateRoutes moduleKey validated routes = .ok ()) :
    routes.Pairwise (fun r r' => routesOverlap r r' = false) ∧
      ∀ r ∈ validated, ∀ r' ∈ routes, routesOverlap r r' = false := by
  induction routes generalizing validated with
  | nil => exact ⟨.nil, by simp⟩
  | cons route routes ih =>
    obtain ⟨_, _, h⟩ := Fallible.bind_eq_ok.mp h
    obtain ⟨_, h⟩ := Fallible.ite_error_eq_ok.mp h
    obtain ⟨_, h⟩ := Fallible.ite_error_eq_ok.mp h
    obtain ⟨hove, h⟩ := Fallible.ite_error_eq_ok.mp h
    obtain ⟨hpairs, hval⟩ := ih h
    have hnone : ∀ r ∈ validated, routesOverlap r route = false := by simpa using hove
    refine ⟨pairwise_cons.mpr ⟨hval route mem_cons_self, hpairs⟩, fun r hr r' hr' => ?_⟩
    obtain rfl | hr' := mem_cons.mp hr'
    · exact hnone r hr
    · exact hval r (mem_cons_of_mem _ hr) r' hr'

/-- Two routes that match one path have different numbers of static segments. -/
def ToldApart (r r' : ModuleRouteDefinition) : Prop :=
  ∀ path, Matches r path → Matches r' path → (routeSpecificity r).1 ≠ (routeSpecificity r').1

instance : Std.Symm ToldApart where
  symm _ _ h path hleft hright hsame := h path hright hleft hsame.symm

theorem validateRoutes_toldApart (h : validateRoutes moduleKey [] routes = .ok ()) : routes.Pairwise ToldApart := by
  refine (validateRoutes_apart h).1.imp fun {r r'} hapart path hleft hright hsame => ?_
  cases hapart.symm.trans (hleft.overlap hright hsame)

theorem validateModules_toldApart {moduleKeys catalog} (h : validateModules moduleKeys catalog = .ok ()) :
    (∀ m ∈ catalog, m.routes.Pairwise ToldApart) ∧ (catalog.map ModuleDefinition.moduleKey).Nodup ∧
      ∀ m ∈ catalog, m.moduleKey ∉ moduleKeys := by
  induction catalog generalizing moduleKeys with
  | nil => exact ⟨by simp, .nil, by simp⟩
  | cons m catalog ih =>
    obtain ⟨hnew, h⟩ := Fallible.ite_error_eq_ok.mp h
    obtain ⟨_, hrou, h⟩ := Fallible.bind_eq_ok.mp h
    obtain ⟨hapart, hnodup, hkeys⟩ := ih h
    refine ⟨forall_mem_cons.mpr ⟨validateRoutes_toldApart hrou, hapart⟩, ?_,
      forall_mem_cons.mpr ⟨hnew, fun m' hm' hmem => hkeys m' hm' (mem_cons_of_mem _ hmem)⟩⟩
    rw [map_cons, nodup_cons]
    refine ⟨fun hmem => ?_, hnodup⟩
    obtain ⟨m', hm', hkey⟩ := mem_map.mp hmem
    exact hkeys m' hm' (by rw [hkey]; exact mem_cons_self)

/-! ## The first of the sorted routes -/

section Match

variable {routes : List ModuleRouteDefinition} {modulePath : Option String}

theorem matchModuleRoute_eq_none : matchModuleRoute routes modulePath = none ↔
    ∀ r ∈ routes, ¬ Matches r (splitPath (modulePath.getD "")) := by
  unfold matchModuleRoute
  rw [findSome?_eq_none_iff]
  refine forall_congr' fun r => ?_
  rw [mem_insertionSort, map_eq_none_iff, ← matchRoute_isSome, Bool.not_eq_true, isSome_eq_false_iff,
    isNone_iff_eq_none]

theorem matchModuleRoute_eq_some {r params} (hapart : routes.Pairwise ToldApart)
    (h : matchModuleRoute routes modulePath = some (r, params)) :
    BestMatch routes (splitPath (modulePath.getD "")) r ∧
      matchRoute r (splitPath (modulePath.getD "")) = some params := by
  obtain ⟨before, r', after, hsor, hr', hbef⟩ := findSome?_eq_some_iff.mp h
  obtain ⟨params', hpars, heq⟩ := map_eq_some_iff.mp hr'
  cases heq
  have hfits : Matches r (splitPath (modulePath.getD "")) := matchRoute_isSome.mp (by rw [hpars]; rfl)
  have hmem : r ∈ routes := by
    rw [← mem_insertionSort fun left right => compareRoutes left right ≤ 0, hsor]
    simp
  refine ⟨⟨hmem, hfits, fun other hother hmatch hne => ?_⟩, hpars⟩
  -- another route that matches stands after it in the sorted list
  have hafter : other ∈ after := by
    rw [← mem_insertionSort fun left right => compareRoutes left right ≤ 0, hsor, mem_append,
      mem_cons] at hother
    obtain hother | hother | hother := hother
    · have hnone := map_eq_none_iff.mp (hbef other hother)
      have hsome := matchRoute_isSome.mpr hmatch
      rw [hnone] at hsome
      cases hsome
    · exact absurd hother hne
    · exact hother
  have hle : compareRoutes r other ≤ 0 := by
    have hpairs := pairwise_insertionSort (fun left right => compareRoutes left right ≤ 0) routes
    rw [hsor] at hpairs
    exact (pairwise_cons.mp (pairwise_append.mp hpairs).2.1).1 other hafter
  have hdif : (routeSpecificity r).1 ≠ (routeSpecificity other).1 :=
    hapart.forall hmem hother (Ne.symm hne) _ hfits hmatch
  unfold compareRoutes at hle
  dsimp only at hle
  split at hle
  · omega
  · omega

/-- In whatever order the routes are listed, the same one is taken, with the same parameters. -/
theorem matchModuleRoute_perm {routes'} (hapart : routes.Pairwise ToldApart) (hperm : routes'.Perm routes) :
    matchModuleRoute routes' modulePath = matchModuleRoute routes modulePath := by
  have hapart' : routes'.Pairwise ToldApart := hperm.symm.pairwise hapart (Std.Symm.symm _ _)
  cases hmatch : matchModuleRoute routes modulePath with
  | none =>
    rw [matchModuleRoute_eq_none] at hmatch ⊢
    exact fun r hr => hmatch r (hperm.mem_iff.mp hr)
  | some found =>
    obtain ⟨r, params⟩ := found
    obtain ⟨hbest, hpars⟩ := matchModuleRoute_eq_some hapart hmatch
    cases hmatch' : matchModuleRoute routes' modulePath with
    | none => exact absurd hbest.fits (matchModuleRoute_eq_none.mp hmatch' r (hperm.mem_iff.mpr hbest.mem))
    | some found' =>
      obtain ⟨r', params'⟩ := found'
      obtain ⟨hbest', hpars'⟩ := matchModuleRoute_eq_some hapart' hmatch'
      have hsame : r' = r := by
        refine BestMatch.unique ⟨hperm.mem_iff.mp hbest'.mem, hbest'.fits, fun other hother => ?_⟩ hbest
        exact hbest'.best other (hperm.mem_iff.mpr hother)
      subst hsame
      rw [hpars] at hpars'
      rw [Option.some.inj hpars']

end Match

/-- An accepted catalog routes every path in one way only; and two routes of a module that are equally specific and
match one path are not accepted together. -/
theorem matchModuleRoute_unambiguous (catalog : ModuleCatalog) (m : ModuleDefinition) (hm : m ∈ catalog) :
    (assertValidModuleCatalog catalog = .ok () → ∀ modulePath : Option String,
      (∀ routes', routes'.Perm m.routes → matchModuleRoute routes' modulePath = matchModuleRoute m.routes modulePath) ∧
      (∀ r params, matchModuleRoute m.routes modulePath = some (r, params) →
        BestMatch m.routes (splitPath (modulePath.getD "")) r) ∧
      (matchModuleRoute m.routes modulePath = none →
        ∀ r ∈ m.routes, ¬ Matches r (splitPath (modulePath.getD "")))) ∧
    (∀ (i j : Nat) r r' path, i ≠ j → m.routes[i]? = some r → m.routes[j]? = some r' →
      routeSpecificity r = routeSpecificity r' → Matches r path → Matches r' path →
      assertValidModuleCatalog catalog ≠ .ok ()) := by
  constructor
  · intro hvalid modulePath
    have hapart : m.routes.Pairwise ToldApart := (validateModules_toldApart hvalid).1 m hm
    exact ⟨fun routes' hperm => matchModuleRoute_perm hapart hperm,
      fun r params hmatch => (matchModuleRoute_eq_some hapart hmatch).1, matchModuleRoute_eq_none.mp⟩
  · intro i j r r' path hij hr hr' hspe hfits hfits' hvalid
    have hapart : m.routes.Pairwise ToldApart := (validateModules_toldApart hvalid).1 m hm
    rw [pairwise_iff_getElem] at hapart
    obtain ⟨hi, rfl⟩ := List.getElem?_eq_some_iff.mp hr
    obtain ⟨hj, rfl⟩ := List.getElem?_eq_some_iff.mp hr'
    rcases Nat.lt_or_gt_of_ne hij with hlt | hgt
    · exact hapart i j hi hj hlt path hfits hfits' (congrArg Prod.fst hspe)
    · exact hapart j i hj hi hgt path hfits' hfits (congrArg Prod.fst hspe.symm)

def newAsset : ModuleRouteDefinition := ⟨"new", "/assets/new", "assets.create", "NewAsset"⟩

def oneAsset : ModuleRouteDefinition := ⟨"one", "/assets/:assetId", "assets.read", "Asset"⟩

def assetsModule : ModuleDefinition := ⟨"assets", .company, [oneAsset, newAsset]⟩

theorem matchModuleRoute_unambiguous_assets : assertValidModuleCatalog [assetsModule] = .ok () ∧
    matchModuleRoute [newAsset, oneAsset] (some "assets/new") =
      matchModuleRoute [oneAsset, newAsset] (some "assets/new") ∧
    (matchModuleRoute [oneAsset, newAsset] (some "assets/new")).map Prod.fst = some newAsset := by
  have hvalid : assertValidModuleCatalog [assetsModule] = .ok () := by decide +kernel
  have h := (matchModuleRoute_unambiguous [assetsModule] assetsModule mem_cons_self).1 hvalid (some "assets/new")
  exact ⟨hvalid, h.1 _ (List.Perm.swap oneAsset newAsset []), by decide +kernel⟩

end Kiban.Web
