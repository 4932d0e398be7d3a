import Kiban.Engine.Loaded

/-!
# The base model

`model.json`, the object types every effective model starts from, and the types a module fragment
may not declare.
-/

namespace Kiban

def thisDef : Json := .obj [("this", .bool true)]

def computed (rel : String) : Json := .obj [("computedUserset", .str rel)]

def via (tupleset rel : String) : Json :=
  .obj [("tupleToUserset", .obj [("tupleset", .str tupleset), ("computedUserset", .str rel)])]

def unionOf (children : List Json) : Json := .obj [("union", .arr children)]

def modelJson : Json :=
  .obj [("user", .obj []), ("system", .obj [("superadmin", thisDef)]), ("module", .obj [
      ("system", thisDef), ("admin", unionOf [thisDef, via "system" "superadmin"]),
      ("editor", unionOf [thisDef, computed "admin"])]),
    ("company", .obj [("system", thisDef), ("admin", unionOf [thisDef, via "system" "superadmin"]),
      ("viewer", unionOf [thisDef, computed "admin"]), ("member", thisDef)]),
    ("company_module", .obj [("system", thisDef), ("company", thisDef),
      ("member", unionOf [thisDef, via "company" "member", computed "admin"]),
      ("admin", unionOf [thisDef, via "company" "admin", via "system" "superadmin"]),
      ("editor", unionOf [thisDef, computed "admin"]), ("submitter", thisDef),
      ("approver", thisDef),
      ("viewer", unionOf [thisDef, computed "editor", computed "submitter", computed "approver",
        computed "admin"])]),
    ("module_role_binding", .obj [("system", thisDef), ("company_module", thisDef), ("member", thisDef),
      ("admin", unionOf [via "company_module" "admin", via "system" "superadmin"])]),
    ("access_bundle", .obj [
      ("system", thisDef), ("company_module", thisDef), ("manager", thisDef), ("member", thisDef),
      ("admin", unionOf [via "company_module" "admin", via "system" "superadmin"])]),
    ("access_segment", .obj [
      ("system", thisDef), ("company_module", thisDef), ("bundle", thisDef), ("viewer", thisDef),
      ("editor", thisDef), ("owner", thisDef),
      ("admin", unionOf [thisDef, via "company_module" "admin", via "system" "superadmin"])]),
    ("member_directory", .obj [("system", thisDef), ("company_module", thisDef),
      ("admin", unionOf [via "company_module" "admin", via "system" "superadmin"]),
      ("owner", unionOf [thisDef, computed "admin"]),
      ("editor", unionOf [thisDef, computed "owner", computed "admin",
        via "company_module" "editor"]),
      ("viewer", unionOf [thisDef, computed "editor", computed "owner", computed "admin"]),
      ("create", unionOf [thisDef, computed "admin"]),
      ("import", unionOf [thisDef, computed "admin"]),
      ("export", unionOf [thisDef, computed "admin"])]),
    ("member", .obj [("system", thisDef), ("company_module", thisDef), ("directory", thisDef),
      ("mapped_user", thisDef),
      ("admin", unionOf [via "company_module" "admin", via "system" "superadmin"]),
      ("owner", unionOf [thisDef, via "directory" "owner", computed "admin"]),
      ("editor", unionOf [thisDef, computed "owner", via "directory" "editor", computed "admin",
        via "company_module" "editor"]),
      ("viewer", unionOf [thisDef, computed "editor", computed "owner", via "directory" "viewer",
        computed "admin"])]),
    ("project_directory", .obj [("system", thisDef), ("company_module", thisDef),
      ("admin", unionOf [via "company_module" "admin", via "system" "superadmin"]),
      ("owner", unionOf [thisDef, computed "admin"]),
      ("editor", unionOf [thisDef, computed "owner", computed "admin",
        via "company_module" "editor"]),
      ("viewer", unionOf [thisDef, computed "editor", computed "owner", computed "admin"]),
      ("create", unionOf [thisDef, computed "admin"]),
      ("import", unionOf [thisDef, computed "admin"]),
      ("export", unionOf [thisDef, computed "admin"])]),
    ("project", .obj [("system", thisDef), ("company_module", thisDef), ("directory", thisDef),
      ("admin", unionOf [via "company_module" "admin", via "system" "superadmin"]),
      ("owner", unionOf [via "directory" "owner", computed "admin"]),
      ("editor", unionOf [via "directory" "editor", computed "owner", computed "admin",
        via "company_module" "editor"]),
      ("viewer", unionOf [computed "editor", via "directory" "viewer", computed "admin"]),
      ("can_assign", unionOf [computed "owner", computed "admin"])]),
    ("timesheet_entry", .obj [
      ("system", thisDef), ("company_module", thisDef), ("member", thisDef), ("project", thisDef),
      ("admin", unionOf [thisDef, via "company_module" "admin", via "system" "superadmin"]),
      ("owner", unionOf [thisDef, via "member" "mapped_user", computed "admin"]),
      ("viewer", unionOf [thisDef, via "member" "mapped_user", via "project" "viewer",
        computed "admin"]),
      ("editor", unionOf [thisDef, via "member" "mapped_user", computed "admin",
        via "company_module" "editor"]),
      ("can_edit", unionOf [computed "editor", computed "owner"])]),
    ("submission", .obj [("system", thisDef), ("company_module", thisDef), ("member", thisDef),
      ("admin", unionOf [thisDef, via "company_module" "admin", via "system" "superadmin"]),
      ("owner", unionOf [thisDef, via "member" "mapped_user", computed "admin"]),
      ("viewer", unionOf [thisDef, via "member" "mapped_user", computed "admin",
        via "company_module" "editor"])]),
    ("position", .obj [("company", thisDef), ("holder", thisDef)]),
    ("group", .obj [("company", thisDef), ("member", thisDef)]),
    ("document", .obj [
      ("system", thisDef), ("member", thisDef), ("project", thisDef), ("timesheet_entry", thisDef),
      ("submission", thisDef),
      ("admin", unionOf [thisDef, via "member" "admin", via "project" "admin",
        via "timesheet_entry" "admin", via "submission" "admin", via "system" "superadmin"]),
      ("owner", unionOf [thisDef, via "member" "owner", via "project" "owner",
        via "timesheet_entry" "owner", via "submission" "owner", computed "admin"]),
      ("editor", unionOf [thisDef, via "member" "editor", via "project" "editor",
        via "timesheet_entry" "editor", computed "owner", computed "admin"]),
      ("viewer", unionOf [thisDef, via "member" "viewer", via "project" "viewer",
        via "timesheet_entry" "viewer", via "submission" "viewer", computed "editor",
        computed "owner", computed "admin"]), ("shared_viewer", thisDef)])]

/-- `BaseModel`: the embedded document is loaded once; one that fails to load stops the program. -/
def baseModel : Model :=
  match loadModel modelJson with
  | .ok m => m
  | .error _ => []

def isBaseType (typ : String) : Bool := (baseModel.lookup typ).isSome

def baseTypes : List String :=
  ["user", "group", "member", "module", "system", "company", "project", "document", "position",
    "submission", "access_bundle", "access_segment", "company_module", "timesheet_entry",
    "member_directory", "project_directory", "module_role_binding"]

theorem baseModel_types : baseModel.map Prod.fst = baseTypes := by decide +kernel

theorem isBaseType_iff {typ} : isBaseType typ = true ↔ typ ∈ baseTypes := by
  unfold isBaseType
  rw [← baseModel_types, Option.isSome_iff_ne_none, ne_eq, List.lookup_eq_none_iff, List.mem_map]
  simp only [not_forall, bne_iff_ne, ne_eq, not_not, exists_prop]
  exact exists_congr fun p => and_congr_right fun _ => eq_comm

end Kiban
