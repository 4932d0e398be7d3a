import Kiban.Gateway.OrgReads
import Kiban.Org.TreeLock

/-!
# Reads stay in the caller's companies

What a caller who is no superadmin reads under `/api/org` is of a company that they were found to be in.  A directory
of members is decided by org alone, and the text in the place of the company can turn its path into that of the lookup
by subject, which asks nothing of the caller.
-/

namespace Kiban.Gateway

open PercentPath ServeMux Transactions Org List Keyed.Table Option

/-! ## What the decisions find -/

section Decisions

variable {e : Edge} {caller company : Bytes}

theorem member_of_membership (hcal : caller ≠ []) (h : e.membership company caller = true) :
    ∃ c row, parseUuid company = some c ∧ e.db.memberFactByKcSub c caller = some row ∧ row.2.isActive = true := by
  unfold Edge.membership at h
  split at h
  · rename_i id kcSub hroute
    have hlit : escape keepInSegment (ascii "companies") = ascii "companies" ∧
        escape keepInSegment (ascii "members") = ascii "members" ∧
        escape keepInSegment (ascii "by-kcsub") = ascii "by-kcsub" := by decide
    have hmatch := @matches_escaped _ _ [ascii "companies", company, ascii "members", ascii "by-kcsub"] caller hcal
      (by simpa only [cons_append, nil_append, map_cons, map_nil, hlit.1, hlit.2.1,
        hlit.2.2] using hroute)
    simp only [ReadHandler.segs, ReadHandler.segs.lit, cons_append, nil_append, matches_lit_iff,
      matches_wild_iff, matches_nil_iff, true_and] at hmatch
    obtain ⟨_, _, heq, _, _, rfl, rfl⟩ := hmatch
    cases heq
    obtain ⟨c, hparse, h⟩ := any_eq_true _ _ |>.mp h
    obtain ⟨row, hrow, hact⟩ := any_eq_true _ _ |>.mp h
    exact ⟨c, row, hparse, hrow, hact⟩
  · cases h

/-- A company for whose admin role, under one spelling of it, authz says yes, and whose unblocked member
the caller is. -/
def Edge.CompanyAdmin (e : Edge) (caller : Bytes) (c : Uuid) : Prop :=
  ∃ text row, parseUuid text = some c ∧ e.authz.companyRole text caller = true ∧
    e.db.memberFactByKcSub c caller = some row ∧ row.2.isActive = true

theorem companyAdmin_of_decide (hcal : caller ≠ []) (hsuper : e.authz.superadmin caller = false)
    (h : e.decideInCompany caller true company = true) :
    ∃ c, parseUuid company = some c ∧ e.CompanyAdmin caller c := by
  simp only [Edge.decideInCompany, hsuper, Bool.not_true, Bool.false_or, Bool.and_eq_true] at h
  obtain ⟨_, hmb, hrole⟩ := h
  obtain ⟨c, row, hparse, hrow, hact⟩ := member_of_membership hcal hmb
  exact ⟨c, jsonText_eq hparse ▸ hparse, jsonText company, row, hparse, hrole, hrow, hact⟩

/-- Org is asked with the id's escapes in the place of the id, which makes no other group of it. -/
theorem group_of_companyFromOrg {id groupId owner}
    (h : e.companyFromOrg caller "groups" id = some owner) (hparse : parseUuid id = some groupId) :
    ∃ g, e.db.groups.get? groupId = some g ∧ g.companyId = owner := by
  obtain ⟨a, ha, howner⟩ := bind_eq_some_iff.mp h
  obtain ⟨⟨handler, values⟩, hroute, ha⟩ := bind_eq_some_iff.mp ha
  obtain ⟨ds, hds, hid⟩ := map_eq_some_iff.mp hparse
  have hne : id ≠ [] := by
    rintro rfl
    cases hds
  have hslash : ∀ p ∈ [ascii "internal", ascii "org", ascii "groups"] ++ [escape keepInSegment id], slash ∉ p := by
    rw [forall_mem_append, forall_mem_singleton]
    exact ⟨by decide, slash_notMem_escape (.inl (by decide))⟩
  have hspl : spelling (escape keepInPath (internalOrg [ascii "groups", escape keepInSegment id])) =
      [ascii "internal", ascii "org", ascii "groups"] ++ [escape keepInSegment id] := by
    rw [internalOrg, spelling_escape (by decide) (by decide) (cons_ne_nil _ _)]
    exact parts_join (cons_ne_nil _ _) hslash
  obtain ⟨hmem, hmatch⟩ := matches_of_routeRead hroute
  rw [segments, hspl, markEnd_concat (escape_ne_nil hne)] at hmatch
  have hcan := mem_candidates hmem (@fits_around _ _ _ [] _ (by rwa [append_nil]))
  have hgroup : candidates readRoutes (around [ascii "internal", ascii "org", ascii "groups"] 1 []) =
      [.getGroup] := by decide
  obtain rfl := mem_singleton.mp (hgroup ▸ hcan)
  obtain rfl : values = [escape keepInSegment id] :=
    @matches_one_wild [ascii "internal", ascii "org", ascii "groups"] [] _ _ hmatch
  obtain ⟨groupId', hparse', ha⟩ := bind_eq_some_iff.mp ha
  obtain ⟨g, hg, rfl⟩ := map_eq_some_iff.mp ha
  obtain ⟨ds', hds', hid'⟩ := map_eq_some_iff.mp hparse'
  have heq : groupId' = groupId := by rw [← hid', ← hid, UuidText.parse_escape hds' hds]
  exact ⟨g, heq ▸ hg, Option.some.inj howner⟩

end Decisions

section Answers

variable {e : Edge} {caller : Bytes} {q : Query} {segments : List Bytes} {records : List Record}
  {rec : Record} {company : Bytes}

theorem forward_eq_some (h : e.forward caller q segments = some records) :
    ∃ handler values a, routeRead (escape keepInPath (internalOrg segments)) = some (handler, values) ∧
      handleRead e.db e.env (e.authz.superadmin caller) q handler values = some a ∧ a.records = records := by
  obtain ⟨a, ha, hrecs⟩ := map_eq_some_iff.mp h
  obtain ⟨⟨handler, values⟩, hroute, ha⟩ := bind_eq_some_iff.mp ha
  exact ⟨handler, values, a, hroute, ha, hrecs⟩

/-- The rows of a company's directory, or the one row of a lookup that the path hides. -/
theorem mem_memberDirectory (hsuper : e.authz.superadmin caller = false)
    (h : e.forward caller (q.set "kcSub" caller) [ascii "companies", company, ascii "members"] = some records)
    (hr : rec ∈ records) :
    (∃ c, e.db.Belongs rec c ∧ e.db.ActiveMember caller c) ∨
      ∃ b c row, company = hidesByKcSub b ∧ slash ∉ b ∧ parseUuid b = some c ∧
        e.db.memberFactByKcSub c (ascii "members") = some row ∧ rec = .member row.1 := by
  obtain ⟨handler, values, a, hroute, ha, rfl⟩ := forward_eq_some h
  rcases routed_company (by decide) companyList_reads.1 rfl hroute with
    ⟨rfl, rfl⟩ | ⟨rfl, b, hco, hb, rfl⟩
  · rw [hsuper] at ha
    obtain ⟨c, _, hbel, hmb⟩ := mem_handleDirectory belongs_activeMembersOf ha hr
    rw [Query.get_set] at hmb
    exact .inl ⟨c, hbel, hmb⟩
  · obtain ⟨c, hparse, rfl⟩ := map_eq_some_iff.mp ha
    split at hr
    · rename_i row hrow
      exact .inr ⟨b, c, row, hco, hb, hparse, hrow, mem_singleton.mp hr⟩
    · exact absurd hr not_mem_nil

theorem mem_positionDirectory (hsuper : e.authz.superadmin caller = false)
    (h : e.forward caller (q.set "kcSub" caller) [ascii "companies", company, ascii "positions", ascii "directory"] = some records)
    (hr : rec ∈ records) : ∃ c, e.db.Belongs rec c ∧ e.db.ActiveMember caller c := by
  obtain ⟨handler, values, a, hroute, ha, rfl⟩ := forward_eq_some h
  obtain ⟨rfl, rfl⟩ := routed_alone (by decide) (by decide) alone_reads.1 rfl hroute
  rw [hsuper] at ha
  obtain ⟨c, _, hbel, hmb⟩ := mem_handleDirectory belongs_positionsOf ha hr
  rw [Query.get_set] at hmb
  exact ⟨c, hbel, hmb⟩

theorem mem_groupDirectory (hsuper : e.authz.superadmin caller = false)
    (h : e.forward caller (q.set "kcSub" caller) [ascii "companies", company, ascii "groups", ascii "directory"] = some records)
    (hr : rec ∈ records) : ∃ c, e.db.Belongs rec c ∧ e.db.ActiveMember caller c := by
  obtain ⟨handler, values, a, hroute, ha, rfl⟩ := forward_eq_some h
  obtain ⟨rfl, rfl⟩ := routed_alone (by decide) (by decide) alone_reads.2.1 rfl hroute
  rw [hsuper] at ha
  obtain ⟨c, _, hbel, hmb⟩ := mem_handleDirectory belongs_activeGroupsOf ha hr
  rw [Query.get_set] at hmb
  exact ⟨c, hbel, hmb⟩

theorem mem_positionHolder (hbound : CompanyBound e.db) (hcal : caller ≠ [])
    (hsuper : e.authz.superadmin caller = false) {id}
    (h : e.forward caller (q.set "kcSub" caller) [ascii "positions", id, ascii "holder"] = some records)
    (hr : rec ∈ records) : ∃ c, e.db.Belongs rec c ∧ e.db.ActiveMember caller c := by
  obtain ⟨handler, values, a, hroute, ha, rfl⟩ := forward_eq_some h
  obtain ⟨rfl, rfl⟩ := routed_alone (by decide) (by decide) alone_reads.2.2.1 rfl hroute
  rw [hsuper] at ha
  have hnamed : (q.set "kcSub" caller).get "kcSub" ≠ [] := by rwa [Query.get_set]
  obtain ⟨c, hbel, hmb⟩ := mem_handleHolderOnDate hbound hnamed ha hr
  rw [Query.get_set] at hmb
  exact ⟨c, hbel, hmb⟩

/-- The members of a group; org looks at the caller only if it is told one. -/
theorem mem_groupMembers (hbound : CompanyBound e.db) (hsuper : e.authz.superadmin caller = false)
    {id} (h : e.forward caller q [ascii "groups", id, ascii "members"] = some records)
    (hr : rec ∈ records) :
    ∃ groupId g, parseUuid id = some groupId ∧ e.db.groups.get? groupId = some g ∧ e.db.Belongs rec g.companyId ∧
      (q.get "kcSub" ≠ [] → e.db.ActiveMember (q.get "kcSub") g.companyId) := by
  obtain ⟨handler, values, a, hroute, ha, rfl⟩ := forward_eq_some h
  obtain ⟨rfl, rfl⟩ := routed_alone (by decide) (by decide) alone_reads.2.2.2 rfl hroute
  rw [hsuper] at ha
  exact mem_handleListGroupMembers hbound ha hr

/-- Such a text has a slash inside it. -/
theorem parseUuid_hidesByKcSub {b c} (h : parseUuid (hidesByKcSub b) = some c) : b = [] := by
  by_contra hb
  obtain ⟨ds, hds, _⟩ := map_eq_some_iff.mp h
  exact absurd (UuidText.textByte_of_parse hds hb (by decide)) (by decide)

theorem mem_adminPositions (hbound : CompanyBound e.db) {c} (hparse : parseUuid company = some c)
    (h : e.forward caller q [ascii "companies", company, ascii "positions"] = some records)
    (hr : rec ∈ records) : e.db.Belongs rec c := by
  obtain ⟨handler, values, a, hroute, ha, rfl⟩ := forward_eq_some h
  rcases routed_company (by decide) companyList_reads.2.1 rfl hroute with
    ⟨rfl, rfl⟩ | ⟨rfl, b, rfl, _, rfl⟩
  · obtain ⟨c', hparse', hbel⟩ := mem_handleAdminPositionList hbound ha hr
    cases hparse.symm.trans hparse'
    exact hbel
  · obtain rfl := parseUuid_hidesByKcSub hparse
    cases ha

theorem mem_adminGroups {c} (hparse : parseUuid company = some c)
    (h : e.forward caller q [ascii "companies", company, ascii "groups"] = some records)
    (hr : rec ∈ records) : e.db.Belongs rec c := by
  obtain ⟨handler, values, a, hroute, ha, rfl⟩ := forward_eq_some h
  rcases routed_company (by decide) companyList_reads.2.2 rfl hroute with
    ⟨rfl, rfl⟩ | ⟨rfl, b, rfl, _, rfl⟩
  · obtain ⟨c', hparse', hbel⟩ := mem_handleAdminGroupList ha hr
    cases hparse.symm.trans hparse'
    exact hbel
  · obtain rfl := parseUuid_hidesByKcSub hparse
    cases ha

theorem routeRead_fixed : routeRead (escape keepInPath (internalOrg [ascii "me", ascii "companies"])) =
        some (.meCompanies, []) ∧
      routeRead (escape keepInPath (internalOrg [ascii "members"])) = some (.listMembers, []) := by
  decide +kernel

theorem not_mem_meCompanies
    (h : e.forward caller q [ascii "me", ascii "companies"] = some records) : rec ∉ records := by
  obtain ⟨handler, values, a, hroute, ha, rfl⟩ := forward_eq_some h
  cases hroute.symm.trans routeRead_fixed.1
  obtain ⟨_, ha⟩ := ite_none_right_eq_some.mp ha
  cases ha
  exact not_mem_nil

theorem mem_adminMembers (hsuper : e.authz.superadmin caller = false)
    (h : e.forward caller (q.set "kcSub" caller) [ascii "members"] = some records)
    (hr : rec ∈ records) : ∃ c, parseUuid (q.get "companyId") = some c ∧ e.db.Belongs rec c := by
  obtain ⟨handler, values, a, hroute, ha, rfl⟩ := forward_eq_some h
  cases hroute.symm.trans routeRead_fixed.2
  rw [hsuper] at ha
  obtain ⟨c, hparse, hbel, _⟩ := mem_handleDirectory belongs_membersOf ha hr
  rw [Query.get_set_of_ne (by decide)] at hparse
  exact ⟨c, hparse, hbel⟩

end Answers

/-! ## Confinement -/

/-- The row is of a company whose admin, or active member who is no guest, the caller was found to be. -/
def Edge.Confined (e : Edge) (caller : Bytes) (read : OrgRead) (rec : Record) : Prop :=
  ∃ c, e.db.Belongs rec c ∧
    (read.isAdmin = true → e.CompanyAdmin caller c) ∧ (read.isAdmin = false → e.db.ActiveMember caller c)

/-- What the columns and the triggers keep: a group's company is a UUID. -/
structure OrgRows (s : Database) : Prop extends CompanyBound s where
  groupCompany : ∀ id g, s.groups.get? id = some g → parseUuid (utf8 g.companyId) = some g.companyId

section Confinement

variable {e : Edge} {caller : Bytes} {q : Query} {read : OrgRead} {values : List Bytes}
  {records : List Record} {rec : Record}

theorem Edge.Confined.admin {c} (hread : read.isAdmin = true) (hbel : e.db.Belongs rec c)
    (hadmin : e.CompanyAdmin caller c) : e.Confined caller read rec :=
  ⟨c, hbel, fun _ => hadmin, fun h => Bool.noConfusion (h.symm.trans hread)⟩

theorem Edge.Confined.member (hread : read.isAdmin = false)
    (h : ∃ c, e.db.Belongs rec c ∧ e.db.ActiveMember caller c) : e.Confined caller read rec := by
  obtain ⟨c, hbel, hmb⟩ := h
  exact ⟨c, hbel, fun h => Bool.noConfusion (h.symm.trans hread), fun _ => hmb⟩

/-- The one way out of a company: a directory's path that hides a lookup by subject. -/
theorem confined_or_hidden (hrows : OrgRows e.db) (hcal : caller ≠ [])
    (hsuper : e.authz.superadmin caller = false) (h : e.respond caller q read values = some records)
    (hr : rec ∈ records) :
    e.Confined caller read rec ∨
      ∃ b c row, read = .memberDirectory ∧ values = [hidesByKcSub b] ∧ slash ∉ b ∧ parseUuid b = some c ∧
        e.db.memberFactByKcSub c (ascii "members") = some row ∧ rec = .member row.1 := by
  have hbound := hrows.toCompanyBound
  unfold Edge.respond at h
  split at h
  case h_1 => exact absurd hr (not_mem_meCompanies h)
  case h_2 company =>
      rcases mem_memberDirectory hsuper h hr with hmb | ⟨b, c, row, rfl, hb, hparse, hrow, rfl⟩
      · exact .inl (.member rfl hmb)
      · exact .inr ⟨b, c, row, rfl, rfl, hb, hparse, hrow, rfl⟩
  case h_3 => exact .inl (.member rfl (mem_positionDirectory hsuper h hr))
  case h_4 => exact .inl (.member rfl (mem_groupDirectory hsuper h hr))
  case h_5 =>
      obtain ⟨_, h⟩ := ite_none_right_eq_some.mp h
      exact .inl (.member rfl (mem_positionHolder hbound hcal hsuper h hr))
  case h_6 =>
      obtain ⟨_, h⟩ := ite_none_right_eq_some.mp h
      obtain ⟨_, g, _, _, hbel, hmb⟩ := mem_groupMembers hbound hsuper h hr
      rw [Query.get_set] at hmb
      exact .inl (.member rfl ⟨g.companyId, hbel, hmb hcal⟩)
  case h_7 => simp [hsuper] at h
  case h_8 => simp [hsuper] at h
  case h_9 =>
      obtain ⟨hdec, h⟩ := ite_none_right_eq_some.mp h
      obtain ⟨c, hparse, hadmin⟩ := companyAdmin_of_decide hcal hsuper hdec
      obtain ⟨c', hparse', hbel⟩ := mem_adminMembers hsuper h hr
      cases hparse.symm.trans hparse'
      exact .inl (.admin rfl hbel hadmin)
  case h_10 =>
      obtain ⟨hdec, h⟩ := ite_none_right_eq_some.mp h
      obtain ⟨c, hparse, hadmin⟩ := companyAdmin_of_decide hcal hsuper hdec
      exact .inl (.admin rfl (mem_adminPositions hbound hparse h hr) hadmin)
  case h_11 =>
      obtain ⟨hdec, h⟩ := ite_none_right_eq_some.mp h
      obtain ⟨c, hparse, hadmin⟩ := companyAdmin_of_decide hcal hsuper hdec
      exact .inl (.admin rfl (mem_adminGroups hparse h hr) hadmin)
  case h_12 id =>
      obtain ⟨owner, howner, h⟩ := bind_eq_some_iff.mp h
      obtain ⟨hdec, h⟩ := ite_none_right_eq_some.mp h
      obtain ⟨c, hparse, hadmin⟩ := companyAdmin_of_decide hcal hsuper hdec
      obtain ⟨groupId, g, hid, hg, hbel, _⟩ := mem_groupMembers hbound hsuper h hr
      obtain ⟨g', hg', rfl⟩ := group_of_companyFromOrg howner hid
      cases hg.symm.trans hg'
      cases (hrows.groupCompany groupId g hg).symm.trans hparse
      exact .inl (.admin rfl hbel hadmin)
  case h_13 => cases h

end Confinement

/-! ## The path that hides a lookup -/

section Hidden

variable {b : Bytes}

/-- What org sees of the path with such a text in it. -/
def hiddenSegments (b : Bytes) : List Bytes :=
  [ascii "internal", ascii "org", ascii "companies", b, ascii "members", ascii "by-kcsub", ascii "members"]

theorem internalOrg_hidesByKcSub (b : Bytes) :
    internalOrg [ascii "companies", hidesByKcSub b, ascii "members"] = join (hiddenSegments b) := by
  have htail : ∀ rest, hidesByKcSub b ++ rest = b ++ (ascii "/members/by-kcsub" ++ rest) :=
    fun rest => append_assoc ..
  simp only [internalOrg, hiddenSegments, join_cons, htail]
  rfl

theorem matchPath_hidden (hb : slash ∉ b) : matchPath (node readRoutes (some "GET")) (hiddenSegments b) =
      some (⟨some "GET", ReadHandler.segs .memberByKcSub, .memberByKcSub⟩, [b, ascii "members"]) := by
  have hslash : b ≠ [slash] := fun h => hb (h ▸ mem_singleton_self slash)
  exact matchPath_lit (matchPath_lit (matchPath_lit (matchPath_wild hslash rfl rfl)))

/-- Org takes the text apart and looks a member up by the word that follows it. -/
theorem routeRead_hidesByKcSub {c} (hb : slash ∉ b) (hparse : parseUuid b = some c) :
    routeRead (escape keepInPath (internalOrg [ascii "companies", hidesByKcSub b, ascii "members"])) =
      some (.memberByKcSub, [b, ascii "members"]) := by
  have hplain : ∀ p ∈ hiddenSegments b, p ≠ [] ∧ slash ∉ p ∧ p ≠ ascii "." ∧ p ≠ ascii ".." := by
    have hid : b ≠ [] ∧ b ≠ ascii "." ∧ b ≠ ascii ".." := by
      refine ⟨?_, ?_, ?_⟩ <;>
      · rintro rfl
        cases hparse
    simp only [hiddenSegments, forall_mem_cons]
    exact ⟨by decide, by decide, by decide, ⟨hid.1, hb, hid.2⟩, by decide, by decide, by decide, nofun⟩
  have hne : hiddenSegments b ≠ [] := cons_ne_nil _ _
  have hclean := @cleanPath_escape_join keepInPath (by decide) (by decide) _ hne hplain
  have hseg : segments (escape keepInPath (join (hiddenSegments b))) = hiddenSegments b := by
    rw [segments, spelling_escape (by decide) (by decide) hne, parts_join hne fun p hp => (hplain p hp).2.1]
    exact @markEnd_concat (ascii "members") (by decide) [_, _, _, _, _, _]
  have hlook : lookup readRoutes "GET" (escape keepInPath (join (hiddenSegments b))) =
      some (⟨some "GET", ReadHandler.segs .memberByKcSub, .memberByKcSub⟩, [b, ascii "members"]) := by
    rw [ServeMux.lookup, hseg, matchPath_hidden hb, some_or]
  rw [internalOrg_hidesByKcSub, routeRead, serve_of_lookup hclean (by decide) hlook]

end Hidden

section Leak

variable {e : Edge} {caller : Bytes} {q : Query} {r : Request}

/-- A request for the directory of a company's members whose path hides the lookup of a member with the
subject `members`, in a company that has one and that the caller is no active member of. -/
def Edge.leaks (e : Edge) (caller : Bytes) (r : Request) : Prop :=
  ∃ b c row, routeApi r = some (.memberDirectory, [hidesByKcSub b]) ∧ slash ∉ b ∧ parseUuid b = some c ∧
    e.db.memberFactByKcSub c (ascii "members") = some row ∧ ¬ e.db.ActiveMember caller c

theorem respond_hidesByKcSub {b c row} (hb : slash ∉ b) (hparse : parseUuid b = some c)
    (hrow : e.db.memberFactByKcSub c (ascii "members") = some row) :
    e.respond caller q .memberDirectory [hidesByKcSub b] = some [.member row.1] := by
  rw [Edge.respond, Edge.forward, answerRead, routeRead_hidesByKcSub hb hparse, bind_some]
  change (handleMemberByKcSub e.db b (ascii "members")).map Answer.records = _
  rw [handleMemberByKcSub, hparse, map_some, hrow]
  rfl

/-- A caller who is no superadmin reads rows of their own companies, unless the path of a directory hides
a lookup by subject that finds someone. -/
theorem reads_confined_iff (hrows : OrgRows e.db) (hcaller : caller ≠ [])
    (hsuper : e.authz.superadmin caller = false) :
    (∀ read values records, routeApi r = some (read, values) → e.respond caller q read values = some records →
        ∀ rec ∈ records, e.Confined caller read rec) ↔ ¬ e.leaks caller r := by
  constructor
  · rintro hcon ⟨b, c, row, hroute, hb, hparse, hrow, hmb⟩
    have hres := @respond_hidesByKcSub e caller q _ _ _ hb hparse hrow
    obtain ⟨c', hbel, _, hact⟩ := hcon _ _ _ hroute hres _ (mem_singleton_self _)
    obtain ⟨hget, hco, _⟩ := memberFactByKcSub_eq_some hrow
    obtain rfl := belongs_unique hbel ⟨row.2, hget, hco⟩
    exact hmb (hact rfl)
  · intro hleak read values records hroute hres rec hrec
    rcases confined_or_hidden hrows hcaller hsuper hres hrec with
      hcon | ⟨b, c, row, rfl, rfl, hb, hparse, hrow, rfl⟩
    · exact hcon
    · obtain ⟨hget, hco, _⟩ := memberFactByKcSub_eq_some hrow
      refine .member rfl ⟨c, ⟨row.2, hget, hco⟩, ?_⟩
      by_contra hmb
      exact hleak ⟨b, c, row, hroute, hb, hparse, hrow, hmb⟩

end Leak

/-- One company, with a member whose account has the subject `members`; Mallory is in no company. -/
def branch : Edge where
  db :=
    { office with
      units := ⟨[("00000000-0000-4000-8000-00000000000b", ⟨"company", none, "B", "Branch", true⟩)], by decide⟩
      members := ⟨[("mia", ⟨"00000000-0000-4000-8000-00000000000b", "M1", "Mia", none, some "u1", true,
        false⟩)], by decide⟩
      groups := .empty
      accounts :=
        { rows := [("u1", ⟨"members", none, none, "active", "person"⟩),
            ("u2", ⟨"mallory", none, none, "active", "person"⟩)]
          nodup := by decide
          unique := by decide } }
  env := ⟨fun _ => some ⟨id, fun _ => List.Subset.refl _⟩, fun _ => none, none⟩
  authz := ⟨fun _ => true, fun _ => false, fun _ _ => false⟩

theorem orgRows_branch : OrgRows branch.db where
  assigned _ _ ha := nomatch ha
  grouped _ _ hrow := nomatch hrow
  groupCompany _ _ hg := nomatch hg

def directory : Request := ⟨"GET", ascii "api/org/companies/00000000-0000-4000-8000-00000000000b/members"⟩

theorem reads_confined_directory : ¬ branch.leaks (ascii "members") directory ∧
      ∀ read values records, routeApi directory = some (read, values) →
        branch.respond (ascii "members") [] read values = some records →
        ∀ rec ∈ records, branch.Confined (ascii "members") read rec := by
  have hkept : ¬ branch.leaks (ascii "members") directory := by
    rintro ⟨b, c, row, hroute, hb, _⟩
    have hplain : routeApi directory =
        some (.memberDirectory, [ascii "00000000-0000-4000-8000-00000000000b"]) := by decide +kernel
    have hval := (Prod.mk.inj (Option.some.inj (hroute.symm.trans hplain))).2
    have hslash : slash ∈ hidesByKcSub b := mem_append_right b (by decide)
    rw [(List.cons.inj hval).1] at hslash
    exact absurd hslash (by decide)
  exact ⟨hkept, (reads_confined_iff orgRows_branch (by decide) rfl).mpr hkept⟩

/-- The same with `/members/by-kcsub` hidden in the place of the company. -/
def hiddenLookup : Request :=
  ⟨"GET", ascii "api/org/companies/00000000-0000-4000-8000-00000000000b%2Fmembers%2Fby-kcsub/members"⟩

theorem hiddenLookup_escapes :
    ¬ ∀ (e : Edge) (caller : Bytes) (q : Query) (r : Request), OrgRows e.db → caller ≠ [] →
      e.authz.superadmin caller = false → ∀ read values records, routeApi r = some (read, values) →
        e.respond caller q read values = some records → ∀ rec ∈ records, e.Confined caller read rec := by
  intro h
  have hroute : routeApi hiddenLookup = some (.memberDirectory,
      [hidesByKcSub (ascii "00000000-0000-4000-8000-00000000000b")]) := by decide +kernel
  have hres : branch.respond (ascii "mallory") [] .memberDirectory
      [hidesByKcSub (ascii "00000000-0000-4000-8000-00000000000b")] = some [.member "mia"] := by
    decide +kernel
  obtain ⟨c, _, _, hact⟩ := h branch (ascii "mallory") [] hiddenLookup orgRows_branch (by decide) rfl _ _ _
    hroute hres (.member "mia") (mem_singleton_self _)
  obtain ⟨id, m, sub, hm, _, hsub, heq, _⟩ := hact rfl
  cases mem_singleton.mp (get?_eq_some_iff.mp hm)
  cases hsub
  exact absurd heq (by decide)

/-! ## Reads beside the transactions of org -/

/-- However the transactions of org run side by side: a request without a hidden slash reads rows of the caller's own
companies from whatever is committed by then. -/
theorem reads_confined_of_run {c : Database} {s : State Database Write Lock Stmt OrgError TreeLock.Call}
    (hstart : Integrity c) (hkeys : c.foreignKeys = true)
    (hgroups : ∀ id g, c.groups.get? id = some g → parseUuid (utf8 g.companyId) = some g.companyId)
    (hreach : Runs.Reach (step schema TreeLock.prog) (fun _ _ => True) (.start c) s) {e : Edge}
    (hdb : e.db = s.committed) {caller q read values records} (hcaller : caller ≠ [])
    (hsuper : e.authz.superadmin caller = false) (hplain : ∀ v ∈ values, slash ∉ v)
    (h : e.respond caller q read values = some records) : ∀ rec ∈ records, e.Confined caller read rec := by
  have hsound : TreeLock.Sound c := ⟨hstart, linked_of_foreignKeys hkeys⟩
  have hint := (TreeLock.prog_contract.reach hsound hreach).1
  have hrows : OrgRows e.db := by
    rw [hdb]
    refine ⟨⟨hint.assigned, hint.grouped⟩, ?_⟩
    rwa [(TreeLock.fixed_of_reach hsound hreach).groups]
  intro rec hrec
  rcases confined_or_hidden hrows hcaller hsuper h hrec with hcon | ⟨b, _, _, _, rfl, _⟩
  · exact hcon
  · exact absurd (mem_append_right b (by decide)) (hplain _ (mem_singleton_self _))

theorem integrity_branch : Integrity branch.db where
  acyclic a hcycle := by
    obtain ⟨b, hup, _⟩ := Relation.TransGen.head'_iff.mp hcycle
    obtain ⟨u, hu, hpar⟩ := node_eq_some hup
    cases mem_singleton.mp (get?_eq_some_iff.mp hu)
    cases hpar
  roots id u hu := by
    cases mem_singleton.mp (get?_eq_some_iff.mp hu)
    exact iff_of_true rfl rfl
  positions _ _ hp := by cases get?_eq_some_iff.mp hp
  assigned := orgRows_branch.assigned
  grouped := orgRows_branch.grouped

def openedTerritory : List (Action TreeLock.Call) :=
  [.begin 1 (.createOrgUnit "north" "territory" (some "00000000-0000-4000-8000-00000000000b") "NORTH" "North" true),
    .exec 1, .exec 1, .exec 1, .commit 1]

theorem reads_confined_of_run_territory :
    ∃ s, openedTerritory.foldlM (step schema TreeLock.prog) (.start branch.db) = some s ∧
      ∀ records, Edge.respond { branch with db := s.committed } (ascii "members") [] .memberDirectory
          [ascii "00000000-0000-4000-8000-00000000000b"] = some records →
        ∀ rec ∈ records, Edge.Confined { branch with db := s.committed } (ascii "members") .memberDirectory rec := by
  have hrun : (openedTerritory.foldlM (step schema TreeLock.prog) (.start branch.db)).isSome = true := by
    decide +kernel
  obtain ⟨s, hs⟩ := isSome_iff_exists.mp hrun
  exact ⟨s, hs, fun records h => reads_confined_of_run integrity_branch (by decide +kernel)
    orgRows_branch.groupCompany (Runs.reach_of_run hs) rfl (by decide) rfl (by decide) h⟩

end Kiban.Gateway
