import AccessRules.Pattern.Syntax
import AccessRules.Proofs.Grammar
import AccessRules.Proofs.Roundtrip
import AccessRules.Proofs.StoreGrowth

/-! Stores as runs of insertions. What is stored under a type are the documents inserted under it,
in their order, each with the identifier that its insertion returned; selections and lists of
identifiers are about nothing else. -/
namespace AccessRules

theorem identicalFields_iff {xs ys : List (String × Value)} :
    identicalFields xs ys = true ↔ ∀ field ∈ xs, fieldIdentical ys field.1 field.2 = true := by
  induction xs with
  | nil => simp [identicalFields]
  | cons field rest ih =>
    rw [identicalFields, Bool.and_eq_true, List.forall_mem_cons, ih]
    rfl

theorem exists_of_fieldIdentical {fields : List (String × Value)} {key : String} {x : Value}
    (h : fieldIdentical fields key x = true) :
    ∃ y, (key, y) ∈ fields ∧ x.identical y = true := by
  unfold fieldIdentical at h
  split at h
  · next y hy => exact ⟨y, KeyMap.mem_of_lookup hy, h⟩
  · cases h

mutual

theorem Value.identical_trans (x : Value) {y z : Value} (hxy : x.identical y = true)
    (hyz : y.identical z = true) : x.identical z = true := by
  match x, y, z with
  | .atom a, .atom b, .atom c =>
    rw [Value.identical] at *
    rwa [← Atom.identical_congr hyz]
  | .array xs, .array ys, .array zs =>
    rw [Value.identical] at *
    exact identicalItems_trans xs hxy hyz
  | .document xs, .document ys, .document zs =>
    simp only [Value.identical, Bool.and_eq_true, beq_iff_eq] at *
    exact ⟨hxy.1.trans hyz.1, identicalFields_trans xs hxy.2 hyz.2⟩
  | .scopedCode a xs, .scopedCode b ys, .scopedCode c zs =>
    simp only [Value.identical, Bool.and_eq_true, beq_iff_eq] at *
    exact ⟨hxy.1.trans hyz.1, hxy.2.1.trans hyz.2.1, identicalFields_trans xs hxy.2.2 hyz.2.2⟩

theorem identicalItems_trans (xs : List Value) {ys zs : List Value}
    (hxy : identicalItems xs ys = true) (hyz : identicalItems ys zs = true) :
    identicalItems xs zs = true := by
  match xs, ys, zs with
  | [], [], [] => rfl
  | x :: xs, y :: ys, z :: zs =>
    rw [identicalItems, Bool.and_eq_true] at *
    exact ⟨Value.identical_trans x hxy.1 hyz.1, identicalItems_trans xs hxy.2 hyz.2⟩

theorem identicalFields_trans (xs : List (String × Value)) {ys zs : List (String × Value)}
    (hxy : identicalFields xs ys = true) (hyz : identicalFields ys zs = true) :
    identicalFields xs zs = true := by
  match xs with
  | [] => rfl
  | (key, x) :: xs =>
    rw [identicalFields, Bool.and_eq_true] at *
    obtain ⟨y, hy, hxy'⟩ := exists_of_fieldIdentical hxy.1
    have hyz' := identicalFields_iff.mp hyz (key, y) hy
    refine ⟨?_, identicalFields_trans xs hxy.2 hyz⟩
    unfold fieldIdentical at hyz'
    split at hyz'
    · next z hz =>
      rw [hz]
      exact Value.identical_trans x hxy' hyz'
    · cases hyz'

end

namespace MemoryStore

/-- A list of values without its repetitions. -/
structure ListsOnce (values kept : List Value) : Prop where
  /-- What is kept are the values that are identical to none before them, in their order. -/
  firsts : kept = (values.zipIdx.filter fun v =>
    !(values.take v.2).any (·.identical v.1)).map (·.1)
  apart : kept.Pairwise fun x y => x.identical y = false
  covers : ∀ x ∈ values, ∃ y ∈ kept, y = x ∨ y.identical x = true

theorem firsts_append_singleton (values : List Value) (v : Value) :
    ((values ++ [v]).zipIdx.filter fun w =>
        !((values ++ [v]).take w.2).any (·.identical w.1)).map (·.1) =
      (values.zipIdx.filter fun w => !(values.take w.2).any (·.identical w.1)).map (·.1) ++
        if values.any (·.identical v) then [] else [v] := by
  have hbefore : (values.zipIdx.filter fun w =>
      !((values ++ [v]).take w.2).any (·.identical w.1)) =
      values.zipIdx.filter fun w => !(values.take w.2).any (·.identical w.1) := by
    refine List.filter_congr fun w hw => ?_
    rw [List.take_append_of_le_length (List.snd_lt_of_mem_zipIdx hw).le]
  rw [List.zipIdx_append, List.filter_append, hbefore, List.map_append]
  cases hany : values.any (·.identical v) <;> simp [hany]

theorem listsOnce_distinct (values : List Value) : ListsOnce values (distinct values) where
  firsts := by
    induction values using List.reverseRecOn with
    | nil => rfl
    | append_singleton values v ih =>
      have hany : (distinct values).any (·.identical v) = values.any (·.identical v) :=
        any_distinct fun x _ y _ hxy hyv => x.identical_trans hxy hyv
      rw [distinct_append_singleton, hany, firsts_append_singleton, ← ih]
      split <;> simp
  apart := by
    induction values using List.reverseRecOn with
    | nil => exact .nil
    | append_singleton values v ih =>
      rw [distinct_append_singleton]
      split
      · exact ih
      · next hnot =>
        refine List.pairwise_append.mpr ⟨ih, List.pairwise_singleton _ _, fun x hx y hy => ?_⟩
        rw [List.mem_singleton.mp hy]
        rw [List.any_eq_true, not_exists] at hnot
        exact Bool.not_eq_true _ ▸ fun h => hnot x ⟨hx, h⟩
  covers := fun x hx => exists_distinct hx

theorem ListsOnce.eq_distinct {values kept : List Value} (h : ListsOnce values kept) :
    kept = distinct values :=
  h.firsts.trans (listsOnce_distinct values).firsts.symm

end MemoryStore

/-- The document with an identifier behind its fields, unless it has one. -/
def Document.withIdentifier (doc : Document) (id : Value) : Document :=
  if doc.hasKey Selector.identifierField then doc else doc ++ [(Selector.identifierField, id)]

namespace MemoryStore
variable {store : MemoryStore} {type : EntityType}

/-- The identifiers that insertions return, one after the other. -/
def returnedIds (store : MemoryStore) : List (EntityType × Document) → List Value
  | [] => []
  | (type, doc) :: rest =>
    (store.insert type doc).1 :: returnedIds (store.insert type doc).2 rest

theorem insert_spec (store : MemoryStore) (type : EntityType) (doc : Document) :
    (store.insert type doc).2.entries =
        store.entries ++ [(type, doc.withIdentifier (store.insert type doc).1)] ∧
      (doc.withIdentifier (store.insert type doc).1).lookup Selector.identifierField =
        some (store.insert type doc).1 := by
  cases hid : doc.lookup Selector.identifierField with
  | some id => simp [insert, Document.withIdentifier, Document.hasKey, hid]
  | none =>
    have hfresh : Selector.identifierField ∉ doc.map (·.1) := by
      intro hmem
      obtain ⟨field, hfield, hkey⟩ := List.mem_map.mp hmem
      simpa [hkey] using List.lookup_eq_none_iff.mp hid field hfield
    have hinsert := Document.insert_of_not_mem hfresh
    simp [insert, Document.withIdentifier, Document.hasKey, hid, hinsert, List.lookup_append]

theorem insertAll_spec (store : MemoryStore) (inserts : List (EntityType × Document)) :
    (store.insertAll inserts).entries =
        store.entries ++ (inserts.zip (store.returnedIds inserts)).map (fun x =>
          (x.1.1, x.1.2.withIdentifier x.2)) ∧
      (store.returnedIds inserts).length = inserts.length ∧
      ∀ x ∈ inserts.zip (store.returnedIds inserts),
        (x.1.2.withIdentifier x.2).lookup Selector.identifierField = some x.2 := by
  induction inserts generalizing store with
  | nil => exact ⟨(List.append_nil _).symm, rfl, nofun⟩
  | cons entry rest ih =>
    obtain ⟨type, doc⟩ := entry
    obtain ⟨hentry, hlookup⟩ := store.insert_spec type doc
    obtain ⟨hentries, hlength, hids⟩ := ih (store.insert type doc).2
    refine ⟨?_, congrArg (· + 1) hlength, List.forall_mem_cons.mpr ⟨hlookup, hids⟩⟩
    change ((store.insert type doc).2.insertAll rest).entries = _
    rw [hentries, hentry, List.append_assoc]
    rfl

theorem documents_insertAll (store : MemoryStore) (inserts : List (EntityType × Document))
    (type : EntityType) :
    (store.insertAll inserts).documents type = store.documents type ++
      ((inserts.zip (store.returnedIds inserts)).filter (·.1.1 = type)).map fun x =>
        x.1.2.withIdentifier x.2 := by
  unfold documents
  rw [(store.insertAll_spec inserts).1, List.filter_append, List.map_append, List.filter_map,
    List.map_map]
  rfl

theorem documents_insertAll_of_ne {inserts : List (EntityType × Document)}
    (h : ∀ entry ∈ inserts, entry.1 ≠ type) :
    (store.insertAll inserts).documents type = store.documents type := by
  rw [documents_insertAll]
  have hnone : (inserts.zip (store.returnedIds inserts)).filter (·.1.1 = type) = [] := by
    refine List.filter_eq_nil_iff.mpr fun x hx => ?_
    simpa using h x.1 (List.of_mem_zip hx).1
  rw [hnone, List.map_nil, List.append_nil]

section Search
variable {filter : Document} {docs found : List Document} {e : FilterError}

theorem accepted_eq_ok_iff [Pattern.Engine] : accepted filter docs = .ok found ↔
    (∀ doc ∈ docs, ∃ b, Filter.holds filter doc = .ok b) ∧
      found = docs.filter (Filter.accepts filter) := by
  constructor
  · intro h
    obtain ⟨hfound, hall⟩ := accepted_eq h
    exact ⟨fun doc hd => ⟨_, hall doc hd⟩, hfound⟩
  · rintro ⟨hall, rfl⟩
    exact accepted_eq_ok hall

/-- The filter fails on a document of a list, and on none before it. -/
def FailsFirst [Pattern.Engine] (filter : Document) (docs : List Document) (e : FilterError) :
    Prop :=
  ∃ before doc after, docs = before ++ doc :: after ∧
    (∀ other ∈ before, ∃ b, Filter.holds filter other = .ok b) ∧
      Filter.holds filter doc = .error e

theorem accepted_eq_error_iff [Pattern.Engine] :
    accepted filter docs = .error e ↔ FailsFirst filter docs e := by
  constructor
  · intro h
    induction docs with
    | nil => cases h
    | cons doc docs ih =>
      rw [accepted] at h
      cases hhere : Filter.holds filter doc with
      | error e' =>
        rw [hhere] at h
        cases h
        exact ⟨[], doc, docs, rfl, fun _ h => absurd h List.not_mem_nil, hhere⟩
      | ok here =>
        cases hrest : accepted filter docs with
        | error e' =>
          rw [hhere, hrest] at h
          cases h
          obtain ⟨before, failing, after, rfl, hbefore, hfails⟩ := ih hrest
          exact ⟨doc :: before, failing, after, rfl,
            List.forall_mem_cons.mpr ⟨⟨here, hhere⟩, hbefore⟩, hfails⟩
        | ok rest =>
          rw [hhere, hrest] at h
          cases h
  · rintro ⟨before, doc, after, rfl, hbefore, hfails⟩
    induction before with
    | nil =>
      rw [List.nil_append, accepted, hfails]
      rfl
    | cons first before ih =>
      obtain ⟨⟨b, hb⟩, hbefore⟩ := List.forall_mem_cons.mp hbefore
      rw [List.cons_append, accepted, hb, ih hbefore]
      rfl

variable {selector : Selector} {listed : List Value}

theorem identifiers_eq_error_iff [Pattern.Engine] :
    store.identifiers type selector = .error e ↔ store.select type selector = .error e := by
  unfold identifiers
  cases store.select type selector with
  | error e' => exact ⟨fun h => by cases h; rfl, fun h => by cases h; rfl⟩
  | ok docs => exact ⟨nofun, nofun⟩

theorem map_some_filterMap {α β : Type} {f : α → Option β} {xs : List α}
    (h : ∀ x ∈ xs, ∃ y, f x = some y) : (xs.filterMap f).map some = xs.map f := by
  induction xs with
  | nil => rfl
  | cons x xs ih =>
    obtain ⟨⟨y, hy⟩, hxs⟩ := List.forall_mem_cons.mp h
    rw [List.filterMap_cons_some hy, List.map_cons, List.map_cons, ih hxs, hy]

theorem identifiers_eq_ok_iff [Pattern.Engine]
    (h : ∀ doc ∈ store.documents type, ∃ id, doc.lookup Selector.identifierField = some id) :
    store.identifiers type selector = .ok listed ↔
      ∃ found ids, store.select type selector = .ok found ∧
        found.map (·.lookup Selector.identifierField) = ids.map some ∧ ListsOnce ids listed := by
  unfold identifiers
  cases hfound : store.select type selector with
  | error e => exact ⟨nofun, fun ⟨found, ids, hok, _⟩ => nomatch hok⟩
  | ok docs =>
    have hids : ∀ doc ∈ docs, ∃ id, doc.lookup Selector.identifierField = some id := by
      intro doc hd
      rw [(accepted_eq hfound).1] at hd
      exact h doc (List.mem_filter.mp hd).1
    have hmap := map_some_filterMap hids
    constructor
    · intro hlisted
      cases hlisted
      exact ⟨docs, _, rfl, hmap.symm, listsOnce_distinct _⟩
    · rintro ⟨found, ids, hok, hfound, honce⟩
      cases hok
      rw [← hmap] at hfound
      rw [honce.eq_distinct, ← (List.map_inj_right fun _ _ => Option.some.inj).mp hfound]
      rfl

end Search
end MemoryStore

open MemoryStore in
/-- A store that documents were inserted into, one after the other: each is stored with the
identifier that its insertion returned, wherever that comes from, and unchanged otherwise, and under
a type they stand in the order of their insertions. A selector finds those of them that it accepts,
and lists their identifiers once, unless it fails on one of them; then both end with the first
failure. Documents under other types do not matter. -/
theorem insertAll_answers [Pattern.Engine] (supply : Nat → ObjectId)
    (inserts : List (EntityType × Document)) (type : EntityType) (selector : Selector) :
    let store := (empty supply).insertAll inserts
    let ids := (empty supply).returnedIds inserts
    (ids.length = inserts.length ∧ ∀ x ∈ inserts.zip ids,
        (x.1.2.withIdentifier x.2).lookup Selector.identifierField = some x.2) ∧
      store.documents type = ((inserts.zip ids).filter (·.1.1 = type)).map (fun x =>
        x.1.2.withIdentifier x.2) ∧
      (∀ found, store.select type selector = .ok found ↔
        (∀ doc ∈ store.documents type, ∃ b, Filter.holds selector.document doc = .ok b) ∧
          found = (store.documents type).filter (Filter.accepts selector.document)) ∧
      (∀ listed, store.identifiers type selector = .ok listed ↔
        ∃ found all, store.select type selector = .ok found ∧
          found.map (·.lookup Selector.identifierField) = all.map some ∧ ListsOnce all listed) ∧
      (∀ e, (store.select type selector = .error e ↔
          FailsFirst selector.document (store.documents type) e) ∧
        (store.identifiers type selector = .error e ↔
          FailsFirst selector.document (store.documents type) e)) ∧
      ∀ others : List (EntityType × Document), (∀ entry ∈ others, entry.1 ≠ type) →
        (store.insertAll others).documents type = store.documents type ∧
          (store.insertAll others).select type selector = store.select type selector ∧
          (store.insertAll others).identifiers type selector =
            store.identifiers type selector := by
  intro store ids
  obtain ⟨-, hlength, hids⟩ := (empty supply).insertAll_spec inserts
  have hdocs : store.documents type = ((inserts.zip ids).filter (·.1.1 = type)).map (fun x =>
      x.1.2.withIdentifier x.2) := documents_insertAll _ inserts type
  have hhave : ∀ doc ∈ store.documents type,
      ∃ id, doc.lookup Selector.identifierField = some id := by
    intro doc hd
    rw [hdocs] at hd
    obtain ⟨x, hx, rfl⟩ := List.mem_map.mp hd
    exact ⟨_, hids x (List.mem_filter.mp hx).1⟩
  refine ⟨⟨hlength, hids⟩, hdocs, fun found => accepted_eq_ok_iff,
    fun listed => identifiers_eq_ok_iff hhave,
    fun e => ⟨accepted_eq_error_iff, identifiers_eq_error_iff.trans accepted_eq_error_iff⟩,
    fun others hothers => ?_⟩
  have hsame : (store.insertAll others).documents type = store.documents type :=
    documents_insertAll_of_ne hothers
  have hselect : (store.insertAll others).select type selector = store.select type selector := by
    rw [select, select, hsame]
  refine ⟨hsame, hselect, ?_⟩
  rw [identifiers, identifiers, hselect]

theorem insertAll_answers_post :
    let post : EntityType := ⟨"Post"⟩
    let tag : EntityType := ⟨"Tag"⟩
    let inserts : List (EntityType × Document) :=
      [(post, [("n", .int32 1)]), (tag, [("_id", .int32 7)]),
        (post, [("_id", .int32 7), ("n", .int32 2)]), (post, [("n", .int64 3), ("_id", .int32 7)]),
        (post, [("_id", .int32 8)])]
    let others : List (EntityType × Document) := [(tag, [("n", .int32 4)])]
    let selector : Selector := ⟨[("n", .document [("$gte", .int32 1)])]⟩
    let store := (MemoryStore.empty ObjectId.generated).insertAll inserts
    (∀ entry ∈ others, entry.1 ≠ post) ∧
      (store.insertAll others).identifiers post selector =
        .ok [.objectId (ObjectId.generated 0), .int32 7] := by
  intro post tag inserts others selector store
  have hothers : ∀ entry ∈ others, entry.1 ≠ post := by decide
  obtain ⟨-, -, -, -, -, hsame⟩ := insertAll_answers ObjectId.generated inserts post selector
  refine ⟨hothers, (hsame others hothers).2.2.trans ?_⟩
  with_unfolding_all rfl

end AccessRules
