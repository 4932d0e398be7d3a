import Kiban.Docs.Shares

/-!
# Repeated share requests

A create-share request that was answered leaves its key on the row of the member.  As long as the row has it, the same
request again changes nothing and any other with the key is refused.  A revocation takes it off, and so does a later
request for the member whose key no row of the document has.
-/

namespace Kiban.Docs

open UuidText Digest List Keyed.Table
open Kiban.Org (ApiError)

variable {sha : Sha256} {s : State} {o : Outcomes} {q : CreateShare} {docId memberId : Uuid16} {relation : Relation}
  {kcSub key : String}

/-! ## Payloads -/

variable {s' : State} {r : Share × String} {after : List Request}

theorem shareIdempotencyPayloadHash_injective {memberId' relation'}
    (h : shareIdempotencyPayloadHash sha docId memberId relation =
      shareIdempotencyPayloadHash sha docId memberId' relation') :
    memberId = memberId' ∧ relation = relation' := by
  have hbytes := sha.injective h
  unfold sharePayload at hbytes
  simp only [append_assoc, append_cancel_left_eq, cons_append, nil_append, List.cons.injEq,
    true_and] at hbytes
  obtain ⟨hmb, hrel⟩ := append_inj hbytes (memberId.size.trans memberId'.size.symm)
  have htext : relation.text = relation'.text := utf8_injective (List.cons.inj hrel).2
  refine ⟨Uuid16.ext_bytes hmb, ?_⟩
  cases relation <;> cases relation' <;> first | rfl | (revert htext; decide)

theorem ofText_text (relation : Relation) : Relation.ofText relation.text = some relation := by
  cases relation <;> rfl

theorem eq_text_of_ofText {t} (h : Relation.ofText t = some relation) : t = relation.text := by
  unfold Relation.ofText at h
  split at h
  · next ht =>
      cases h
      exact ht
  · obtain ⟨ht, hrel⟩ := Option.ite_none_right_eq_some.mp h
    cases hrel
    exact ht

theorem parseMember_text (memberId : Uuid16) : parseMember memberId.text = some memberId := by
  unfold parseMember
  rw [utf8_eq_ascii memberId.toList_text_ascii, Uuid16.parse_text]

/-! ## What a request can do to the rows -/

theorem shares_upgrade : (upgrade o docId memberId relation kcSub s).1.shares = s.shares := by
  unfold upgrade
  split
  · split
    · cases o.revoke <;> rfl
    · rfl
  · rfl

def newRow (sha : Sha256) (o : Outcomes) (q : CreateShare) (relation : Relation) (memberId : Uuid16) (s : State) :
    ShareRow :=
  s.shareRow sha q.docId memberId relation q.subject q.idempotencyKey o.newId o.now

theorem grantAndRecord_cases {r} (h : grantAndRecord sha o q relation memberId kcSub s = (s', r)) :
    (s'.shares = s.shares ∧ ¬ r.Success) ∨
      s'.shares = s.shares.upsert (q.docId, memberId) (newRow sha o q relation memberId s) := by
  have hshr : (upgrade o q.docId memberId relation kcSub s).1.shares = s.shares := shares_upgrade
  unfold grantAndRecord at h
  split at h
  · generalize upgrade o q.docId memberId relation kcSub s = u at h hshr
    obtain ⟨upgraded, ok⟩ := u
    cases ok with
    | false =>
      cases h
      exact .inl ⟨hshr, id⟩
    | true =>
      have hgra : (o.grant.effect (·.grantShare q.docId relation kcSub) upgraded).shares = s.shares := by
        rw [← hshr]
        cases o.grant <;> rfl
      have hrow : (o.grant.effect (·.grantShare q.docId relation kcSub) upgraded).shareRow sha q.docId memberId
          relation q.subject q.idempotencyKey o.newId o.now = newRow sha o q relation memberId s := by
        unfold newRow State.shareRow
        rw [hgra]
      dsimp only at h
      rw [if_pos rfl, hrow] at h
      split at h
      · cases hstore : o.store with
        | failed =>
          rw [hstore] at h
          cases h
          exact .inl ⟨hgra, id⟩
        | done =>
          rw [hstore] at h
          cases h
          exact .inr (congrArg (Keyed.Table.upsert · _ _) hgra)
        | lost =>
          rw [hstore] at h
          cases h
          exact .inr (congrArg (Keyed.Table.upsert · _ _) hgra)
      · cases h
        exact .inl ⟨hgra, id⟩
  · cases h
    exact .inl ⟨rfl, id⟩

def NewKey (q : CreateShare) (s : State) : Prop :=
  q.idempotencyKey = "" ∨ s.findShareByIdempotencyKey q.docId q.idempotencyKey = none

theorem newKey_of_checkKey (h : checkKey sha o q relation memberId s = none) : NewKey q s := by
  unfold checkKey at h
  split at h
  · next hkey => exact .inl hkey
  · split at h
    · exact .inr (Option.map_eq_none_iff.mp h)
    · cases h

theorem resolve_eq_ok (h : resolve o q = .ok (relation, memberId, kcSub)) :
    Relation.ofText q.relation = some relation ∧ parseMember q.memberId = some memberId ∧
      q.idempotencyKey.utf8ByteSize ≤ 200 := by
  unfold resolve at h
  split at h
  · cases h
  split at h
  · cases h
  split at h
  · cases h
  split at h
  · cases h
  · next hrel _ _ hmb _ _ _ hsize =>
      cases h
      exact ⟨hrel, hmb, Nat.le_of_not_lt hsize⟩

theorem handleCreateShare_refused {e} (hres : resolve o q = .error e) :
    handleCreateShare sha o q s = (s, .error e) := by
  unfold handleCreateShare
  rw [hres]

theorem handleCreateShare_known {answer} (hres : resolve o q = .ok (relation, memberId, kcSub))
    (hcheck : checkKey sha o q relation memberId s = some answer) :
    handleCreateShare sha o q s = (s, answer) := by
  unfold handleCreateShare
  rw [hres]
  dsimp only
  rw [hcheck]

theorem handleCreateShare_new (hres : resolve o q = .ok (relation, memberId, kcSub))
    (hcheck : checkKey sha o q relation memberId s = none) :
    handleCreateShare sha o q s = grantAndRecord sha o q relation memberId kcSub s := by
  unfold handleCreateShare
  rw [hres]
  dsimp only
  rw [hcheck]

theorem create_cases (sha : Sha256) (s : State) (o : Outcomes) (q : CreateShare) :
    (handleCreateShare sha o q s).1.shares = s.shares ∨
      ∃ relation memberId, parseMember q.memberId = some memberId ∧ NewKey q s ∧
        (handleCreateShare sha o q s).1.shares =
          s.shares.upsert (q.docId, memberId) (newRow sha o q relation memberId s) := by
  cases hres : resolve o q with
  | error e =>
    rw [handleCreateShare_refused hres]
    exact .inl rfl
  | ok r =>
    obtain ⟨relation, memberId, kcSub⟩ := r
    cases hcheck : checkKey sha o q relation memberId s with
    | some answer =>
      rw [handleCreateShare_known hres hcheck]
      exact .inl rfl
    | none =>
      rw [handleCreateShare_new hres hcheck]
      rcases grantAndRecord_cases (Prod.mk.eta (p := grantAndRecord sha o q relation memberId kcSub s)) with h | h
      · exact .inl h.1
      · exact .inr ⟨relation, memberId, (resolve_eq_ok hres).2.1, newKey_of_checkKey hcheck, h⟩

theorem revokeAndRemove_cases : (revokeAndRemove o docId memberId relation kcSub s).1.shares = s.shares ∨
      (revokeAndRemove o docId memberId relation kcSub s).1.shares = s.shares.erase (docId, memberId) := by
  have hrev : (if kcSub = "" then s else o.revoke.effect (·.revokeShare docId relation kcSub) s).shares =
      s.shares := by
    split
    · rfl
    · cases o.revoke <;> rfl
  unfold revokeAndRemove
  dsimp only
  split
  · cases o.store with
    | failed => exact .inl hrev
    | done | lost => exact .inr (congrArg (Keyed.Table.erase · _) hrev)
  · exact .inl hrev

theorem revoke_cases {q} : (handleRevokeShare o q s).1.shares = s.shares ∨
      ∃ memberId, parseMember q.memberId = some memberId ∧
        (handleRevokeShare o q s).1.shares = s.shares.erase (q.docId, memberId) := by
  unfold handleRevokeShare
  cases hmb : parseMember q.memberId with
  | none => exact .inl rfl
  | some memberId =>
    dsimp only
    split
    · exact .inl rfl
    split
    · exact .inl rfl
    split
    · split
      · exact .inl rfl
      · rcases revokeAndRemove_cases with h | h
        · exact .inl h
        · exact .inr ⟨memberId, rfl, h⟩
    · exact .inl rfl

/-! ## Rows and their keys -/

/-- Keys are not repeated within a document, and each is stored with the hash of its row. -/
structure State.Sound (sha : Sha256) (s : State) : Prop where
  unique : ∀ docId m m' row row' key, s.shares.get? (docId, m) = some row → s.shares.get? (docId, m') = some row' →
    row.idempotencyKey = some key → row'.idempotencyKey = some key → m = m'
  hashed : ∀ docId m row key, s.shares.get? (docId, m) = some row → row.idempotencyKey = some key →
    row.idempotencyKeyHash = some (shareIdempotencyPayloadHash sha docId m row.relation)

theorem find_eq_none_iff : s.findShareByIdempotencyKey docId key = none ↔
    ∀ m row, s.shares.get? (docId, m) = some row → row.idempotencyKey ≠ some key := by
  unfold State.findShareByIdempotencyKey
  rw [Option.map_eq_none_iff, find?_eq_none]
  constructor
  · intro h m row hrow hkey
    exact h _ (get?_eq_some_iff.mp hrow) (decide_eq_true ⟨rfl, hkey⟩)
  · rintro h ⟨⟨docId', m⟩, row⟩ hmem hdec
    obtain ⟨rfl, hkey⟩ := of_decide_eq_true hdec
    exact h m row (get?_eq_some_iff.mpr hmem) hkey

theorem find_eq_some (hsound : s.Sound sha) (h : s.findShareByIdempotencyKey docId key = some r) :
    ∃ m row, s.shares.get? (docId, m) = some row ∧ row.idempotencyKey = some key ∧
      r = (row.share docId m, shareIdempotencyPayloadHash sha docId m row.relation) := by
  obtain ⟨⟨⟨docId', m⟩, row⟩, hfind, rfl⟩ := Option.map_eq_some_iff.mp h
  have hdec := find?_some hfind
  obtain ⟨rfl, hkey⟩ := of_decide_eq_true hdec
  have hrow := get?_eq_some_iff.mpr (mem_of_find?_eq_some hfind)
  refine ⟨m, row, hrow, hkey, ?_⟩
  rw [hsound.hashed _ _ _ _ hrow hkey]
  rfl

/-- The row of the member has the key, and the relation that was asked for with it. -/
def State.Carries (s : State) (docId memberId : Uuid16) (relation : Relation) (key : String) : Prop :=
  ∃ row, s.shares.get? (docId, memberId) = some row ∧ row.relation = relation ∧ row.idempotencyKey = some key

theorem find_of_carries (hsound : s.Sound sha) (h : s.Carries docId memberId relation key) :
    ∃ share, s.findShareByIdempotencyKey docId key =
      some (share, shareIdempotencyPayloadHash sha docId memberId relation) := by
  obtain ⟨row, hrow, rfl, hkey⟩ := h
  cases hfind : s.findShareByIdempotencyKey docId key with
  | none => exact absurd hkey (find_eq_none_iff.mp hfind memberId row hrow)
  | some r =>
    obtain ⟨m, row', hrow', hkey', rfl⟩ := find_eq_some hsound hfind
    cases hsound.unique _ _ _ _ _ _ hrow hrow' hkey hkey'
    cases hrow.symm.trans hrow'
    exact ⟨_, rfl⟩

/-! ## Every request keeps the keys apart -/

theorem newRow_key_ne (hnew : NewKey q s) (hkey : (newRow sha o q relation memberId s).idempotencyKey = some key) :
    ∀ m row, s.shares.get? (q.docId, m) = some row → row.idempotencyKey ≠ some key := by
  unfold newRow State.shareRow at hkey
  dsimp only at hkey
  split at hkey
  · cases hkey
  · next hne =>
      cases hkey
      exact find_eq_none_iff.mp (hnew.resolve_left hne)

theorem newRow_hashed (hkey : (newRow sha o q relation memberId s).idempotencyKey = some key) :
    (newRow sha o q relation memberId s).idempotencyKeyHash =
      some (shareIdempotencyPayloadHash sha q.docId memberId relation) := by
  unfold newRow State.shareRow at hkey ⊢
  dsimp only at hkey ⊢
  rw [hkey]
  rfl

theorem Sound.upsert (hsound : s.Sound sha) (hnew : NewKey q s)
    (hshr : s'.shares = s.shares.upsert (q.docId, memberId) (newRow sha o q relation memberId s)) : s'.Sound sha := by
  have hget : ∀ k, s'.shares.get? k =
      if k = (q.docId, memberId) then some (newRow sha o q relation memberId s) else s.shares.get? k := by
    intro k
    rw [hshr, get?_upsert]
  constructor
  · intro docId m m' row row' key hrow hrow' hkey hkey'
    rw [hget] at hrow hrow'
    split at hrow
    · next hk =>
        cases hk
        cases hrow
        split at hrow'
        · next hk' =>
            cases hk'
            rfl
        · exact absurd hkey' (newRow_key_ne hnew hkey m' row' hrow')
    · split at hrow'
      · next hk' =>
          cases hk'
          cases hrow'
          exact absurd hkey (newRow_key_ne hnew hkey' m row hrow)
      · exact hsound.unique docId m m' row row' key hrow hrow' hkey hkey'
  · intro docId m row key hrow hkey
    rw [hget] at hrow
    split at hrow
    · next hk =>
        cases hk
        cases hrow
        exact newRow_hashed hkey
    · exact hsound.hashed docId m row key hrow hkey

theorem Sound.of_get? (hsound : s.Sound sha)
    (h : ∀ k row, s'.shares.get? k = some row → s.shares.get? k = some row) : s'.Sound sha :=
  ⟨fun _ _ _ _ _ _ hrow hrow' => hsound.unique _ _ _ _ _ _ (h _ _ hrow) (h _ _ hrow'),
    fun _ _ _ _ hrow => hsound.hashed _ _ _ _ (h _ _ hrow)⟩

theorem Sound.step (hsound : s.Sound sha) (r : Request) : (step sha s r).Sound sha := by
  cases r with
  | create o q =>
    rcases create_cases sha s o q with hsame | ⟨relation, memberId, _, hnew, hshr⟩
    · exact Sound.of_get? hsound fun k row hrow => hsame ▸ hrow
    · exact Sound.upsert hsound hnew hshr
  | revoke o q =>
    rcases revoke_cases (s := s) (o := o) (q := q) with hsame | ⟨memberId, _, hshr⟩
    · exact Sound.of_get? hsound fun k row hrow => hsame ▸ hrow
    refine Sound.of_get? hsound fun k row hrow => ?_
    change (handleRevokeShare o q s).1.shares.get? k = some row at hrow
    rw [hshr, get?_erase] at hrow
    split at hrow
    · cases hrow
    · exact hrow

theorem Sound.run (hsound : s.Sound sha) (rs : List Request) : (run sha s rs).Sound sha := by
  induction rs generalizing s with
  | nil => exact hsound
  | cons r rs ih => exact ih (Sound.step hsound r)

/-! ## Keys that rows have -/

theorem checkKey_of_found (hkey : q.idempotencyKey ≠ "")
    (hfind : s.findShareByIdempotencyKey q.docId q.idempotencyKey = some r) :
    checkKey sha o q relation memberId s = some (if o.findKey then
        (if r.2 ≠ shareIdempotencyPayloadHash sha q.docId memberId relation then .error idempotencyConflict
          else .ok r.1)
        else .error internal) := by
  unfold checkKey
  rw [if_neg hkey, hfind]
  split <;> rfl

theorem unchanged_of_found (hkey : q.idempotencyKey ≠ "")
    (hfind : s.findShareByIdempotencyKey q.docId q.idempotencyKey = some r) :
    (handleCreateShare sha o q s).1 = s := by
  cases hres : resolve o q with
  | error e => rw [handleCreateShare_refused hres]
  | ok payload => rw [handleCreateShare_known hres (checkKey_of_found hkey hfind)]

/-- The request changes nothing and fails; if it is well-formed and the key can be looked up, as a conflict. -/
structure Refuses (sha : Sha256) (o : Outcomes) (q : CreateShare) (s : State) : Prop where
  unchanged : (handleCreateShare sha o q s).1 = s
  error : ¬ (handleCreateShare sha o q s).2.Success
  conflict : ∀ payload, resolve o q = .ok payload → o.findKey = true →
    (handleCreateShare sha o q s).2 = .error idempotencyConflict

theorem refuses_of_found {share} (hkey : q.idempotencyKey ≠ "")
    (hfind : s.findShareByIdempotencyKey q.docId q.idempotencyKey =
      some (share, shareIdempotencyPayloadHash sha q.docId memberId relation))
    (hother : ¬ (Relation.ofText q.relation = some relation ∧ parseMember q.memberId = some memberId)) :
    Refuses sha o q s := by
  have hans : ∀ payload, resolve o q = .ok payload →
      (handleCreateShare sha o q s).2 = if o.findKey then .error idempotencyConflict else .error internal := by
    rintro ⟨relation', memberId', kcSub⟩ hres
    obtain ⟨hrel', hmb', _⟩ := resolve_eq_ok hres
    have hhash : shareIdempotencyPayloadHash sha q.docId memberId relation ≠
        shareIdempotencyPayloadHash sha q.docId memberId' relation' := by
      intro heq
      obtain ⟨rfl, rfl⟩ := shareIdempotencyPayloadHash_injective heq
      exact hother ⟨hrel', hmb'⟩
    rw [handleCreateShare_known hres (checkKey_of_found hkey hfind), if_pos hhash]
  refine ⟨unchanged_of_found hkey hfind, ?_, fun payload hres hfound => ?_⟩
  · cases hres : resolve o q with
    | error e =>
      rw [handleCreateShare_refused hres]
      exact id
    | ok payload =>
      rw [hans payload hres]
      split <;> exact id
  · rw [hans payload hres, if_pos hfound]

/-! ## Used keys -/

def State.Remembers (s : State) (q : CreateShare) : Prop :=
  ∃ relation memberId, Relation.ofText q.relation = some relation ∧ parseMember q.memberId = some memberId ∧
    s.Carries q.docId memberId relation q.idempotencyKey

theorem newRow_carries (hkey : q.idempotencyKey ≠ "")
    (hshr : s'.shares = s.shares.upsert (q.docId, memberId) (newRow sha o q relation memberId s)) :
    s'.Carries q.docId memberId relation q.idempotencyKey := by
  refine ⟨newRow sha o q relation memberId s, ?_, rfl, if_neg hkey⟩
  rw [hshr, get?_upsert, if_pos rfl]

/-- An answer with success means that the key is on the row of the member. -/
theorem remembers_of_success (hsound : s.Sound sha) (hkey : q.idempotencyKey ≠ "")
    (h : (handleCreateShare sha o q s).2.Success) :
    (handleCreateShare sha o q s).1.Remembers q ∧ q.idempotencyKey.utf8ByteSize ≤ 200 := by
  cases hres : resolve o q with
  | error e =>
    rw [handleCreateShare_refused hres] at h
    exact h.elim
  | ok payload =>
    obtain ⟨relation, memberId, kcSub⟩ := payload
    obtain ⟨hrel, hmb, hsize⟩ := resolve_eq_ok hres
    refine ⟨⟨relation, memberId, hrel, hmb, ?_⟩, hsize⟩
    cases hfind : s.findShareByIdempotencyKey q.docId q.idempotencyKey with
    | none =>
      cases hcheck : checkKey sha o q relation memberId s with
      | none =>
        rw [handleCreateShare_new hres hcheck] at h ⊢
        rcases grantAndRecord_cases (Prod.mk.eta (p := grantAndRecord sha o q relation memberId kcSub s)) with
          hsame | hshr
        · exact absurd h hsame.2
        · exact newRow_carries hkey hshr
      | some answer =>
        rw [handleCreateShare_known hres hcheck] at h
        unfold checkKey at hcheck
        rw [if_neg hkey, hfind] at hcheck
        split at hcheck
        · cases hcheck
        · cases hcheck
          exact h.elim
    | some r =>
      obtain ⟨m, row, hrow, hrowK, rfl⟩ := find_eq_some hsound hfind
      rw [handleCreateShare_known hres (checkKey_of_found hkey hfind)] at h ⊢
      split at h
      · split at h
        · exact h.elim
        · next hhash =>
            obtain ⟨rfl, rfl⟩ := shareIdempotencyPayloadHash_injective (not_not.mp hhash)
            exact ⟨row, hrow, rfl, hrowK⟩
      · exact h.elim

def Reuses (q q' : CreateShare) : Prop := q'.docId = q.docId ∧ q'.idempotencyKey = q.idempotencyKey

def SamePayload (q q' : CreateShare) : Prop :=
  parseMember q'.memberId = parseMember q.memberId ∧ q'.relation = q.relation

/-- The member has had a share all the time. -/
def Standing (sha : Sha256) (q : CreateShare) (s : State) (after : List Request) : Prop :=
  ∀ memberId, parseMember q.memberId = some memberId → ∀ pre, pre <+: after →
    ((run sha s pre).shares.get? (q.docId, memberId)).isSome = true

/-- What a key promises after its request was answered in the state `s` and others came `after` it. -/
structure Protected (sha : Sha256) (q : CreateShare) (s : State) (after : List Request) : Prop where
  replay : Standing sha q s after → ∀ o' q', Reuses q q' → SamePayload q q' →
    (handleCreateShare sha o' q' (run sha s after)).1 = run sha s after
  bound : ∀ o' q', Reuses q q' → ¬ SamePayload q q' → Refuses sha o' q' (run sha s after)

theorem protected_of_remembers (hsound : (run sha s after).Sound sha)
    (hkey : q.idempotencyKey ≠ "") (h : (run sha s after).Remembers q) : Protected sha q s after := by
  obtain ⟨relation, memberId, hrel, hmb, hcarr⟩ := h
  obtain ⟨share, hfind⟩ := find_of_carries hsound hcarr
  constructor
  · rintro _ o' q' ⟨hdoc, hkey'⟩ _
    rw [← hdoc, ← hkey'] at hfind
    exact unchanged_of_found (hkey' ▸ hkey) hfind
  · rintro o' q' ⟨hdoc, hkey'⟩ hother
    rw [← hdoc, ← hkey'] at hfind
    refine refuses_of_found (hkey' ▸ hkey) hfind fun hsame => hother ⟨hsame.2.trans hmb.symm, ?_⟩
    rw [eq_text_of_ofText hsame.1, eq_text_of_ofText hrel]

/-! ## Forgotten keys -/

def allDone : Outcomes := ⟨some "user", true, true, .done, .done, .done, Uuid16.ofByte 0, 0⟩

theorem resolve_allDone (hsize : q.idempotencyKey.utf8ByteSize ≤ 200)
    (hrel : Relation.ofText q.relation = some relation)
    (hmb : parseMember q.memberId = some memberId) :
    resolve allDone q = .ok (relation, memberId, "user") := by
  unfold resolve
  rw [hrel]
  dsimp only
  rw [hmb]
  exact if_neg (Nat.not_lt.mpr hsize)

theorem grantAndRecord_allDone : (grantAndRecord sha allDone q relation memberId kcSub s).2.Success := by
  have hok : (upgrade allDone q.docId memberId relation kcSub s).2 = true := by
    unfold upgrade
    split
    · split <;> rfl
    · rfl
  unfold grantAndRecord
  rw [if_pos (show allDone.getShare = true from rfl)]
  generalize upgrade allDone q.docId memberId relation kcSub s = u at hok
  obtain ⟨upgraded, ok⟩ := u
  cases hok
  trivial

/-- A key that no row has is taken for any payload. -/
theorem success_of_forgotten (hsize : q.idempotencyKey.utf8ByteSize ≤ 200)
    (hrel : Relation.ofText q.relation = some relation)
    (hmb : parseMember q.memberId = some memberId)
    (hfind : s.findShareByIdempotencyKey q.docId q.idempotencyKey = none) :
    (handleCreateShare sha allDone q s).2.Success := by
  have hcheck : checkKey sha allDone q relation memberId s = none := by
    unfold checkKey
    rw [hfind]
    split <;> rfl
  rw [handleCreateShare_new (resolve_allDone hsize hrel hmb) hcheck]
  exact grantAndRecord_allDone

theorem success_of_carries (hsound : s.Sound sha) (hkey : q.idempotencyKey ≠ "")
    (hsize : q.idempotencyKey.utf8ByteSize ≤ 200) (h : s.Remembers q) :
    (handleCreateShare sha allDone q s).2.Success := by
  obtain ⟨relation, memberId, hrel, hmb, hcarr⟩ := h
  obtain ⟨share, hfind⟩ := find_of_carries hsound hcarr
  rw [handleCreateShare_known (resolve_allDone hsize hrel hmb) (checkKey_of_found hkey hfind)]
  simp [allDone, Response.Success]

def Relation.other : Relation → Relation
  | .viewer => .editor
  | .editor => .viewer

theorem other_text_ne (relation : Relation) : relation.other.text ≠ relation.text := by
  cases relation <;> decide

theorem not_protected (hsound : (run sha s after).Sound sha) (hkey : q.idempotencyKey ≠ "")
    (hsize : q.idempotencyKey.utf8ByteSize ≤ 200)
    (hrel : Relation.ofText q.relation = some relation)
    (hmb : parseMember q.memberId = some memberId)
    (h : ¬ (run sha s after).Carries q.docId memberId relation q.idempotencyKey) :
    ¬ Protected sha q s after := by
  intro hp
  cases hfind : (run sha s after).findShareByIdempotencyKey q.docId q.idempotencyKey with
  | none =>
    -- the other relation is granted under the key
    let q' : CreateShare := { q with relation := relation.other.text }
    have hother : ¬ SamePayload q q' := by
      rintro ⟨_, hsame⟩
      exact other_text_ne relation (hsame.trans (eq_text_of_ofText hrel))
    have hsucc : (handleCreateShare sha allDone q' (run sha s after)).2.Success :=
      success_of_forgotten (q := q') hsize (ofText_text relation.other) hmb hfind
    exact (hp.bound allDone q' ⟨rfl, rfl⟩ hother).error hsucc
  | some r =>
    -- another row has the key, and its own payload is answered
    obtain ⟨m, row, hrow, hrowK, _⟩ := find_eq_some hsound hfind
    let q' : CreateShare := { q with memberId := m.text, relation := row.relation.text }
    have hother : ¬ SamePayload q q' := by
      rintro ⟨hm, hsame⟩
      rw [hmb, parseMember_text] at hm
      cases hm
      rw [← hsame, ofText_text] at hrel
      exact h ⟨row, hrow, Option.some.inj hrel, hrowK⟩
    have hrem : (run sha s after).Remembers q' :=
      ⟨row.relation, m, ofText_text _, parseMember_text m, row, hrow, rfl, hrowK⟩
    exact (hp.bound allDone q' ⟨rfl, rfl⟩ hother).error (success_of_carries hsound hkey hsize hrem)

/-! ## Histories -/

/-- The request leaves the row of `q` alone: it is for another one, or a create-share with a known key. -/
def Spares (q : CreateShare) (s : State) : Request → Prop
  | .create _ q' => q'.docId = q.docId → parseMember q'.memberId = parseMember q.memberId → ¬ NewKey q' s
  | .revoke _ q' => q'.docId = q.docId → parseMember q'.memberId ≠ parseMember q.memberId

theorem remembers_step (h : s.Remembers q) {r} (hspa : Spares q s r) : (step sha s r).Remembers q := by
  obtain ⟨relation, memberId, hrel, hmb, row, hrow, hrest⟩ := h
  suffices hkept : (step sha s r).shares.get? (q.docId, memberId) = s.shares.get? (q.docId, memberId) from
    ⟨relation, memberId, hrel, hmb, row, hkept.trans hrow, hrest⟩
  cases r with
  | create o q' =>
    rcases create_cases sha s o q' with hsame | ⟨_, memberId', hmb', hnew, hshr⟩
    · exact congrArg (Keyed.Table.get? · _) hsame
    change (handleCreateShare sha o q' s).1.shares.get? (q.docId, memberId) = _
    rw [hshr, get?_upsert, if_neg]
    intro heq
    obtain ⟨hdoc, rfl⟩ := Prod.mk.inj heq
    exact hspa hdoc.symm (hmb'.trans hmb.symm) hnew
  | revoke o q' =>
    rcases revoke_cases (s := s) (o := o) (q := q') with hsame | ⟨memberId', hmb', hshr⟩
    · exact congrArg (Keyed.Table.get? · _) hsame
    change (handleRevokeShare o q' s).1.shares.get? (q.docId, memberId) = _
    rw [hshr, get?_erase, if_neg]
    intro heq
    obtain ⟨hdoc, rfl⟩ := Prod.mk.inj heq
    exact hspa hdoc.symm (hmb'.trans hmb.symm)

def AllSpare (sha : Sha256) (q : CreateShare) (s : State) (after : List Request) : Prop :=
  ∀ pre r post, after = pre ++ r :: post → Spares q (run sha s pre) r

theorem remembers_run (h : s.Remembers q) (hspare : AllSpare sha q s after) : (run sha s after).Remembers q := by
  induction after generalizing s with
  | nil => exact h
  | cons r after ih =>
    have hfirst : Spares q s r := hspare [] r after rfl
    refine ih (remembers_step h hfirst) fun pre r' post hsplit => ?_
    exact hspare (r :: pre) r' post (congrArg (r :: ·) hsplit)

/-- After a create-share request with a key was answered, the key protects the share if and only if the row of the
member still has it with the relation that was asked for; it has, if no later request for the member revoked the share
or came with a key that no share of the document had. -/
theorem createShare_protected_iff (sha : Sha256) {s₀ : State} (hsound : s₀.Sound sha)
    (before after : List Request) (o : Outcomes) (q : CreateShare) (hkey : q.idempotencyKey ≠ "")
    (hanswered : (handleCreateShare sha o q (run sha s₀ before)).2.Success) :
    (Protected sha q (step sha (run sha s₀ before) (.create o q)) after ↔
        (run sha (step sha (run sha s₀ before) (.create o q)) after).Remembers q) ∧
      (AllSpare sha q (step sha (run sha s₀ before) (.create o q)) after →
        (run sha (step sha (run sha s₀ before) (.create o q)) after).Remembers q) := by
  have hbef : (run sha s₀ before).Sound sha := Sound.run hsound before
  obtain ⟨hused, hsize⟩ := remembers_of_success hbef hkey hanswered
  have hafter := Sound.run (Sound.step hbef (.create o q)) after
  refine ⟨⟨fun hp => ?_, fun h => protected_of_remembers hafter hkey h⟩, fun hspare => remembers_run hused hspare⟩
  obtain ⟨relation, memberId, hrel, hmb, _⟩ := hused
  by_contra hlost
  refine not_protected hafter hkey hsize hrel hmb (fun hcarr => hlost ?_) hp
  exact ⟨relation, memberId, hrel, hmb, hcarr⟩

/-! ## Bob becomes an editor -/

def noShares : State := ⟨.empty, []⟩

theorem noShares_sound : noShares.Sound sha where
  unique _ _ _ _ _ _ h := by cases h
  hashed _ _ _ _ h := by cases h

def shareWithBob (relation key : String) : CreateShare :=
  ⟨"alice", Uuid16.ofByte 1, (Uuid16.ofByte 2).text, relation, key⟩

def bobViews : State := step plainDigest noShares (.create allDone (shareWithBob "viewer" "k1"))

theorem shareWithBob_answered :
    (handleCreateShare plainDigest allDone (shareWithBob "viewer" "k1") noShares).2.Success :=
  success_of_forgotten (by decide) rfl (parseMember_text _) rfl

/-- The key for another relation is refused, and the share stays protected. -/
theorem createShare_protected_bob :
    Protected plainDigest (shareWithBob "viewer" "k1") bobViews [.create allDone (shareWithBob "editor" "k1")] := by
  have h := createShare_protected_iff plainDigest noShares_sound [] [.create allDone (shareWithBob "editor" "k1")] allDone
    (shareWithBob "viewer" "k1") (by decide) shareWithBob_answered
  refine h.1.mpr (h.2 fun pre r post hsplit => ?_)
  cases pre with
  | nil =>
    cases hsplit
    rintro _ _ (hempty | hnone)
    · exact absurd hempty (by decide)
    · revert hnone
      decide +kernel
  | cons _ pre => simp at hsplit

/-- Bob is made an editor under another key.  Then the first request again makes a viewer of an editor. -/
theorem createShare_replay_downgrades :
    Standing plainDigest (shareWithBob "viewer" "k1") bobViews [.create allDone (shareWithBob "editor" "k2")] ∧
      ¬ Protected plainDigest (shareWithBob "viewer" "k1") bobViews [.create allDone (shareWithBob "editor" "k2")] := by
  have hsta : Standing plainDigest (shareWithBob "viewer" "k1") bobViews
      [.create allDone (shareWithBob "editor" "k2")] := by
    intro memberId hmb pre hpre
    cases (parseMember_text _).symm.trans hmb
    cases pre with
    | nil => decide +kernel
    | cons r pre =>
      obtain ⟨rfl, hrest⟩ := cons_prefix_cons.mp hpre
      cases prefix_nil.mp hrest
      decide +kernel
  have hchg : ((run plainDigest bobViews [.create allDone (shareWithBob "editor" "k2")]).shares.get?
          (Uuid16.ofByte 1, Uuid16.ofByte 2)).map (·.relation) = some .editor ∧
      ((handleCreateShare plainDigest allDone (shareWithBob "viewer" "k1")
          (run plainDigest bobViews [.create allDone (shareWithBob "editor" "k2")])).1.shares.get?
          (Uuid16.ofByte 1, Uuid16.ofByte 2)).map (·.relation) = some .viewer := by decide +kernel
  refine ⟨hsta, fun hp => ?_⟩
  have hsame := hp.replay hsta allDone (shareWithBob "viewer" "k1") ⟨rfl, rfl⟩ ⟨rfl, rfl⟩
  rw [hsame, hchg.1] at hchg
  cases hchg.2

end Kiban.Docs
