import AccessRules.Pattern.Syntax
import AccessRules.Proofs.Flattening
import AccessRules.Proofs.Roundtrip
import Mathlib.Data.List.Nodup

/-! Resolution is idempotent. The filter of clauses, read as a tree again, is flat: every key leads
through plain fields to a condition on an undivided key. So it resolves without a question to
clauses on the same keys. -/
namespace AccessRules

theorem keyPath_prefix_of_undivided {x y : String} (hx : splitKey x = none)
    (h : keyPath x <+: keyPath y) : x = y ∨ ∃ tail, splitKey y = some (x, tail) := by
  rw [keyPath_undivided hx] at h
  cases hy : splitKey y with
  | none =>
    rw [keyPath_undivided hy, List.cons_prefix_cons] at h
    exact .inl h.1
  | some parts =>
    rw [keyPath_split hy, List.cons_prefix_cons] at h
    exact .inr ⟨parts.2, by rw [h.1]⟩

theorem keyPath_prefix_of_split {x y head tail : String} (hx : splitKey x = some (head, tail))
    (h : keyPath x <+: keyPath y) :
    ∃ rest, splitKey y = some (head, rest) ∧ keyPath tail <+: keyPath rest := by
  rw [keyPath_split hx] at h
  cases hy : splitKey y with
  | none =>
    rw [keyPath_undivided hy, List.cons_prefix_cons, List.prefix_nil] at h
    exact absurd h.2 (keyPath_ne_nil tail)
  | some parts =>
    rw [keyPath_split hy, List.cons_prefix_cons] at h
    exact ⟨parts.2, by rw [h.1], h.2⟩

/-- Conditions of which none is below one that asks for the empty document. -/
def Apart (pairs : List (String × Value)) : Prop :=
  ∀ x ∈ pairs, x.2 = .document [] → ∀ y ∈ pairs, keyPath x.1 <+: keyPath y.1 → x.1 = y.1

/-- A condition on a key that comes from the heads of an outline, or is on an undivided key and asks
for no empty document. -/
inductive Stated (plain : String → Prop) (heads : List (String × Outline)) : String × Value → Prop
  | whole {key value} : splitKey key = none → value.IsWhole → value ≠ .document [] →
    Stated plain heads (key, value)
  /-- A plain field with nothing below it. -/
  | empty {field inside} : (field, inside) ∈ heads → inside.isEmpty = true → plain field →
    Stated plain heads (field, .document [])
  /-- A condition below a plain field. -/
  | below {field inside leaf} : (field, inside) ∈ heads → inside.isEmpty = false → plain field →
    leaf ∈ inside.leaves → Stated plain heads (field ++ "." ++ leaf.1, leaf.2)

namespace Stated
variable {plain : String → Prop} {heads more : List (String × Outline)} {x y : String × Value}

theorem mono (h : Stated plain heads x) (hsub : ∀ head ∈ heads, head ∈ more) :
    Stated plain more x := by
  cases h with
  | whole hs hw hne => exact .whole hs hw hne
  | empty hm he hp => exact .empty (hsub _ hm) he hp
  | below hm he hp hl => exact .below (hsub _ hm) he hp hl

theorem cons {head : String × Outline} {rest : List (String × Outline)} {clause : Clause}
    {clauses : List Clause} (hclause : ∀ x ∈ clause.pairs, Stated plain (head :: rest) x)
    (hrest : ∀ x ∈ Clause.pairsOf clauses, Stated plain rest x) :
    ∀ x ∈ Clause.pairsOf (clause :: clauses), Stated plain (head :: rest) x := by
  intro x hx
  rw [Clause.pairsOf] at hx
  rcases List.mem_append.mp hx with hx | hx
  · exact hclause x hx
  · exact (hrest x hx).mono fun _ hh => List.mem_cons_of_mem _ hh

theorem of_split (h : Stated plain heads x) (hu : ∀ head ∈ heads, splitKey head.1 = none)
    {head tail : String} (hs : splitKey x.1 = some (head, tail)) :
    ∃ inside, (head, inside) ∈ heads ∧ inside.isEmpty = false ∧ plain head ∧
      (tail, x.2) ∈ inside.leaves := by
  cases h with
  | whole hnone =>
    rw [hnone] at hs
    cases hs
  | empty hm =>
    rw [hu _ hm] at hs
    cases hs
  | @below field inside leaf hm he hp hl =>
    have ht : Operator.isToken field = false := by
      obtain ⟨hkey, -, ht⟩ := splitKey_eq_some_iff.mp hs
      change field ++ "." ++ leaf.1 = head ++ "." ++ tail at hkey
      rw [← Operator.isToken_append field leaf.1, hkey, Operator.isToken_append, ht]
    rw [splitKey_append (noDot_of_splitKey (hu _ hm) ht) ht] at hs
    cases hs
    exact ⟨inside, hm, he, hp, hl⟩

theorem of_empty (h : Stated plain heads x) (hu : ∀ head ∈ heads, splitKey head.1 = none)
    (he : x.2 = .document []) (hs : splitKey x.1 = none) :
    (∃ inside, (x.1, inside) ∈ heads ∧ inside.isEmpty = true ∧ plain x.1) ∨
      Operator.isToken x.1 = true := by
  cases h with
  | whole _ _ hne => exact absurd he hne
  | empty hm hempty hp => exact .inl ⟨_, hm, hempty, hp⟩
  | @below field inside leaf hm =>
    refine .inr ?_
    rw [Operator.isToken_append]
    by_contra ht
    rw [Bool.not_eq_true] at ht
    rw [splitKey_append (noDot_of_splitKey (hu _ hm) ht) ht] at hs
    cases hs

theorem of_direct {direct : List (String × Condition)}
    (h : ∀ entry ∈ direct, splitKey entry.1 = none ∧ entry.2.IsWhole) :
    ∀ x ∈ direct.map (fun entry => (entry.1, entry.2.toValue)), Stated plain heads x := by
  intro x hx
  obtain ⟨entry, he, rfl⟩ := List.mem_map.mp hx
  obtain ⟨hs, hwhole, hne⟩ := h entry he
  exact .whole hs hwhole hne

theorem of_operator {key token : String} (hs : splitKey key = none)
    (ht : Operator.isToken token = true) (operand : Value) :
    Stated plain heads (key, .document [(token, operand)]) :=
  .whole hs (Value.isWhole_singleton ht operand) (by simp)

theorem isWhole (h : Stated plain heads x)
    (hinside : ∀ head ∈ heads, ∀ leaf ∈ head.2.leaves, leaf.2.IsWhole) : x.2.IsWhole := by
  cases h with
  | whole _ hw => exact hw
  | empty => exact fun doc hdoc => .inl (Value.document.inj hdoc).symm
  | @below field inside leaf hm _ _ hl => exact hinside _ hm leaf hl

theorem apart {pairs : List (String × Value)} (h : ∀ x ∈ pairs, Stated plain heads x)
    (hu : ∀ head ∈ heads, splitKey head.1 = none) (hnodup : (heads.map (·.1)).Nodup)
    (hinside : ∀ head ∈ heads, Apart head.2.leaves) : Apart pairs := by
  intro x hx he y hy hprefix
  have hsame : ∀ {field a b}, (field, a) ∈ heads → (field, b) ∈ heads → a = b := fun ha hb =>
    congrArg Prod.snd (List.inj_on_of_nodup_map hnodup ha hb rfl)
  cases hs : splitKey x.1 with
  | none =>
    rcases keyPath_prefix_of_undivided hs hprefix with heq | ⟨tail, hys⟩
    · exact heq
    · obtain ⟨inside, hm, hfull, -⟩ := (h y hy).of_split hu hys
      rcases (h x hx).of_empty hu he hs with ⟨other, hm', hempty, -⟩ | ht
      · rw [hsame hm hm', hempty] at hfull
        cases hfull
      · rw [(splitKey_eq_some_iff.mp hys).2.2] at ht
        cases ht
  | some parts =>
    obtain ⟨head, tail⟩ := parts
    obtain ⟨rest, hys, htails⟩ := keyPath_prefix_of_split hs hprefix
    obtain ⟨inside, hm, -, -, hxl⟩ := (h x hx).of_split hu hs
    obtain ⟨other, hm', -, -, hyl⟩ := (h y hy).of_split hu hys
    rw [hsame hm' hm] at hyl
    have heq : tail = rest := hinside _ hm _ hxl he _ hyl htails
    rw [(splitKey_eq_some_iff.mp hs).1, (splitKey_eq_some_iff.mp hys).1, heq]

end Stated

/-- An outline with undivided keys, every head once, and conditions that are read and written back
as they are. -/
inductive Outline.Regular : Outline → Prop
  | mk {direct heads} :
    (∀ entry ∈ direct, splitKey entry.1 = none ∧ entry.2.IsWhole) →
    (∀ head ∈ heads, splitKey head.1 = none) → (heads.map (·.1)).Nodup →
    (∀ head ∈ heads, head.2.Regular) → Regular (.mk direct heads)

namespace Outline.Regular
variable {o : Outline}

theorem stated_leaves (h : o.Regular) :
    ∀ x ∈ o.leaves, Stated (fun _ => True) o.heads x := by
  intro x hx
  rw [leaves_eq, leavesBelow_eq_flatMap] at hx
  rcases List.mem_append.mp hx with hx | hx
  · cases h with
    | mk hdirect => exact Stated.of_direct hdirect x hx
  · obtain ⟨⟨field, inside⟩, hm, hx⟩ := List.mem_flatMap.mp hx
    cases he : inside.isEmpty with
    | true =>
      simp only [he, if_true, List.mem_singleton] at hx
      rw [hx]
      exact .empty hm he trivial
    | false =>
      simp only [he, Bool.false_eq_true, if_false] at hx
      obtain ⟨leaf, hl, rfl⟩ := List.mem_map.mp hx
      exact .below hm he trivial hl

theorem isWhole_leaves (h : o.Regular) : ∀ leaf ∈ o.leaves, leaf.2.IsWhole := by
  induction h with
  | mk hdirect hu hnodup hinside ih =>
    exact fun leaf hl => ((stated_leaves (.mk hdirect hu hnodup hinside)) leaf hl).isWhole ih

theorem apart_leaves (h : o.Regular) : Apart o.leaves := by
  induction h with
  | @mk direct heads hdirect hu hnodup hinside ih =>
    exact Stated.apart (stated_leaves (.mk hdirect hu hnodup hinside)) hu hnodup ih

end Outline.Regular

theorem Tree.regular_outline {tree : Tree} (h : tree.Ordered)
    (hwhole : ∀ p c, (p, some c) ∈ tree.places → c.isNested = false → c.IsWhole) :
    tree.outline.Regular := by
  induction tree using Tree.outline.induct with
  | case1 tree ih =>
    rw [outline_eq]
    refine .mk (fun entry he => ?_) (fun head hh => ?_) ?_ fun head hh => ?_
    · obtain ⟨hmem, hs, hc⟩ := (mem_split_direct h.sorted).mp he
      refine ⟨hs, hwhole (keyPath entry.1) entry.2 ?_ hc⟩
      exact mem_places.mpr ⟨entry.1, entry.2, [], hmem,
        (Condition.mem_placesBy_nil (.inl hc)).mpr ⟨rfl, rfl⟩, (List.append_nil _).symm⟩
    · obtain ⟨below, hb, rfl⟩ := List.mem_map.mp hh
      obtain ⟨key, -, hhead⟩ := tree.split_keysFrom.2 below hb
      exact hhead.undivided
    · rw [List.map_map]
      exact tree.sorted_split.1.map _ fun a b hab => String.ne_of_lt hab
    · obtain ⟨⟨head, below⟩, hb, rfl⟩ := List.mem_map.mp hh
      have hunder := (mem_split_heads h).mp hb
      refine ih ⟨_, hb⟩ (ordered_under h hunder) fun p c hp hc => ?_
      have hbelow : (p, some c) ∈ (Condition.nested below).places := by
        obtain ⟨key, d, q, hmem, hq, heq⟩ := mem_places.mp hp
        exact (Condition.mem_placesBy_nested (List.ne_nil_of_mem hmem)).mpr (.inr hp)
      exact hwhole _ c ((mem_places_under h hunder hbelow).resolve_right (by simp)) hc

namespace Schema

/-- Relations are not named like operators, and no field that holds an identifier is a dotted
path. -/
def fieldNames (schema : Schema) : Bool :=
  schema.entities.all fun entity => entity.2.relations.all fun relation =>
    !Operator.isToken relation.1 && relation.2.key.all fun key => decide ('.' ∉ key.toList)

variable {schema : Schema} {owner : Option EntityType} {field : String} {relation : Relation}
  {target : EntityType}

theorem fieldNames_of_relation (h : schema.fieldNames = true) {type : EntityType}
    (hr : schema.relation? type field = some relation) :
    Operator.isToken field = false ∧ ∀ key ∈ relation.key, '.' ∉ key.toList := by
  obtain ⟨entity, hentity, hmem⟩ := exists_entity_of_relation hr
  rw [fieldNames, List.all_eq_true] at h
  have hboth := List.all_eq_true.mp (h entity hentity) _ hmem
  rw [Bool.and_eq_true, Bool.not_eq_true'] at hboth
  refine ⟨hboth.1, fun key hk => ?_⟩
  have hkey := hboth.2
  rw [Option.mem_def.mp hk] at hkey
  exact of_decide_eq_true hkey

theorem head_of_isToken (h : schema.fieldNames = true) (ht : Operator.isToken field = true) :
    schema.head owner field = .plain := by
  unfold head
  split
  · rfl
  · next type =>
    cases hr : schema.relation? type field with
    | none => rfl
    | some relation =>
      rw [(fieldNames_of_relation h hr).1] at ht
      cases ht

theorem splitKey_keyField (h : schema.fieldNames = true) (hs : splitKey field = none)
    (hhead : schema.head owner field = .related relation target) :
    splitKey (relation.keyField field) = none := by
  obtain ⟨type, -, hr⟩ := relation_of_head hhead
  obtain ⟨ht, hkey⟩ := fieldNames_of_relation h hr
  have hdot : '.' ∉ (relation.keyField field).toList := by
    unfold Relation.keyField
    cases hk : relation.key with
    | some key => exact hkey key hk
    | none => simpa [String.toList_append] using noDot_of_splitKey hs ht
  by_contra hsome
  obtain ⟨parts, hparts⟩ := Option.ne_none_iff_exists'.mp hsome
  rw [(splitKey_eq_some_iff.mp hparts).1] at hdot
  exact hdot (by simp [String.toList_append])

end Schema

theorem Resolves.stated {schema : Schema} {store : Store} {owner : Option EntityType}
    {heads : List (String × Outline)} {clauses : List Clause}
    (h : Resolves schema store owner heads clauses) (hschema : schema.fieldNames = true)
    (hu : ∀ head ∈ heads, splitKey head.1 = none) :
    ∀ x ∈ Clause.pairsOf clauses, Stated (schema.head owner · = .plain) heads x := by
  induction h with
  | nil => simp [Clause.pairsOf]
  | empty hhead hempty _ ih =>
    refine Stated.cons (fun x hx => ?_) (ih fun head hh => hu head (List.mem_cons_of_mem _ hh))
    rw [Clause.pairs, List.mem_singleton] at hx
    rw [hx]
    exact .empty List.mem_cons_self hempty hhead
  | plain hhead hempty hbelow _ _ ih =>
    refine Stated.cons (fun x hx => ?_) (ih fun head hh => hu head (List.mem_cons_of_mem _ hh))
    rw [Clause.pairs, Clause.pairsOf_append, Outline.pairsOf_ownClauses, hbelow.pairsOf_eq,
      ← Outline.leaves_eq] at hx
    obtain ⟨leaf, hl, rfl⟩ := List.mem_map.mp hx
    exact .below List.mem_cons_self hempty hhead hl
  | embedded _ _ _ _ _ ih =>
    refine Stated.cons (fun x hx => ?_) (ih fun head hh => hu head (List.mem_cons_of_mem _ hh))
    rw [Clause.pairs, List.mem_singleton] at hx
    rw [hx]
    exact .of_operator (hu _ List.mem_cons_self) (by decide) _
  | foreignKey hhead _ _ _ _ _ ih =>
    refine Stated.cons (fun x hx => ?_) (ih fun head hh => hu head (List.mem_cons_of_mem _ hh))
    rw [Clause.pairs, List.mem_singleton] at hx
    rw [hx]
    exact .of_operator (Schema.splitKey_keyField hschema (hu _ List.mem_cons_self) hhead)
      (by decide) _

namespace Tree
variable {doc : Document}

theorem perm_ofDocument (h : (doc.map (·.1)).Nodup) :
    (ofDocument doc).Perm (doc.map fun x => (x.1, Condition.ofValue x.2)) := by
  rw [ofDocument, Condition.ofFields_eq_map]
  apply KeyMap.ofList_perm
  rw [List.map_map]
  exact h

theorem mem_ofDocument (h : (doc.map (·.1)).Nodup) {entry : String × Condition} :
    entry ∈ ofDocument doc ↔ ∃ x ∈ doc, entry = (x.1, Condition.ofValue x.2) := by
  rw [(perm_ofDocument h).mem_iff, List.mem_map]
  exact exists_congr fun x => and_congr_right fun _ => eq_comm

end Tree

/-- A filter that is read as a flat tree over plain fields, and written back as it is. -/
structure Document.Settled (plain : String → Prop) (pairs : Document) : Prop where
  nodup : (pairs.map (·.1)).Nodup
  whole : ∀ x ∈ pairs, x.2.IsWhole
  apart : Apart pairs
  plainEmpty : ∀ x ∈ pairs, x.2 = .document [] → splitKey x.1 = none → plain x.1
  plainHead : ∀ x ∈ pairs, ∀ head tail, splitKey x.1 = some (head, tail) → plain head

namespace Document.Settled
variable {plain : String → Prop} {pairs : Document}

theorem singleton {key : String} {value : Value} (hs : splitKey key = none)
    (hw : value.IsWhole) (hne : value ≠ .document []) : Settled plain [(key, value)] where
  nodup := List.pairwise_singleton _ _
  whole := by simpa using hw
  apart := by
    intro x hx he
    rw [List.mem_singleton.mp hx] at he
    exact absurd he hne
  plainEmpty := by
    intro x hx he
    rw [List.mem_singleton.mp hx] at he
    exact absurd he hne
  plainHead := by
    intro x hx head tail hsplit
    rw [List.mem_singleton.mp hx, hs] at hsplit
    cases hsplit

theorem perm_tree (h : Settled plain pairs) :
    (Tree.ofDocument pairs).Perm (pairs.map fun x => (x.1, Condition.ofValue x.2)) :=
  Tree.perm_ofDocument h.nodup

theorem mem_tree (h : Settled plain pairs) {entry : String × Condition} :
    entry ∈ Tree.ofDocument pairs ↔ ∃ x ∈ pairs, entry = (x.1, Condition.ofValue x.2) :=
  Tree.mem_ofDocument h.nodup

theorem flat_tree (h : Settled plain pairs) : (Tree.ofDocument pairs).Flat where
  sorted := KeyMap.sorted_ofList _
  empty := by
    intro entry he hn
    obtain ⟨x, hx, rfl⟩ := h.mem_tree.mp he
    rw [(h.whole x hx).eq_empty hn]
    rfl
  apart := by
    intro a ha hn b hb hprefix
    obtain ⟨x, hx, rfl⟩ := h.mem_tree.mp ha
    obtain ⟨y, hy, rfl⟩ := h.mem_tree.mp hb
    exact h.apart x hx ((h.whole x hx).eq_empty hn) y hy hprefix

theorem perm_leaves (h : Settled plain pairs) :
    (Tree.ofDocument pairs).outline.leaves.Perm pairs := by
  have hmap := h.perm_tree.map fun entry => (entry.1, entry.2.toValue)
  have hback : (pairs.map fun x => (x.1, Condition.ofValue x.2)).map
      (fun entry => (entry.1, entry.2.toValue)) = pairs := by
    rw [List.map_map]
    refine (List.map_congr_left fun x hx => ?_).trans (List.map_id pairs)
    exact Prod.ext rfl (h.whole x hx).toValue_ofValue
  rw [hback] at hmap
  exact h.flat_tree.perm_leaves.trans hmap

theorem plain_of_mem_heads (h : Settled plain pairs) :
    ∀ head ∈ (Tree.ofDocument pairs).outline.heads, plain head.1 := by
  intro head hh
  rw [Tree.outline_eq] at hh
  obtain ⟨⟨field, below⟩, hb, rfl⟩ := List.mem_map.mp hh
  by_cases hne : below = []
  · subst hne
    obtain ⟨key, -, hhead⟩ := (Tree.ofDocument pairs).split_keysFrom.2 _ hb
    have hmem : (field, .nested []) ∈ Tree.ofDocument pairs :=
      h.flat_tree.mem_of_head hb List.mem_cons_self
    obtain ⟨⟨k, value⟩, hx, heq⟩ := h.mem_tree.mp hmem
    obtain ⟨rfl, hvalue⟩ := Prod.mk.inj heq
    have hnested : (Condition.ofValue value).isNested = true := by
      rw [← hvalue]
      rfl
    exact h.plainEmpty _ hx ((h.whole _ hx).eq_empty hnested) hhead.undivided
  · obtain ⟨entry, he⟩ := List.exists_mem_of_ne_nil _ hne
    obtain ⟨hmem, hs⟩ := h.flat_tree.mem_below hb he
    obtain ⟨x, hx, heq⟩ := h.mem_tree.mp hmem
    obtain ⟨hkey, -⟩ := Prod.mk.inj heq
    exact h.plainHead x hx field entry.1 (hkey ▸ hs)

end Document.Settled

namespace Outline
variable (schema : Schema) (store : Store)

mutual

theorem resolve_of_plain (o : Outline) (owner : Option EntityType)
    (h : ∀ head ∈ o.heads, schema.head owner head.1 = .plain) :
    ∃ clauses, o.resolve schema store owner = pure clauses ∧
      Clause.pairsOf clauses = o.leaves := by
  match o with
  | .mk direct heads =>
    obtain ⟨below, hbelow, hpairs⟩ := resolveHeads_of_plain heads owner h
    refine ⟨Outline.ownClauses (.mk direct heads) ++ below, ?_, ?_⟩
    · rw [Outline.resolve, hbelow, pure_bind]
      rfl
    · rw [Clause.pairsOf_append, pairsOf_ownClauses, hpairs, leaves_eq]
      rfl

theorem resolveHeads_of_plain (heads : List (String × Outline)) (owner : Option EntityType)
    (h : ∀ head ∈ heads, schema.head owner head.1 = .plain) :
    ∃ clauses, Outline.resolveHeads schema store owner heads = pure clauses ∧
      Clause.pairsOf clauses = leavesBelow heads := by
  match heads with
  | [] =>
    refine ⟨[], ?_, rfl⟩
    rw [Outline.resolveHeads]
  | (field, inside) :: rest =>
    obtain ⟨more, hmore, hpairs⟩ :=
      resolveHeads_of_plain rest owner fun head hh => h head (List.mem_cons_of_mem _ hh)
    obtain ⟨below, hbelow, hinside⟩ := resolve_of_plain inside none fun _ _ => rfl
    have hhead : schema.head owner field = .plain := h _ List.mem_cons_self
    rw [Outline.resolveHeads, headClause, hhead, hmore, leavesBelow]
    cases hempty : inside.isEmpty with
    | true =>
      refine ⟨.field field (.nested []) :: more, rfl, ?_⟩
      rw [Clause.pairsOf, hpairs]
      rfl
    | false =>
      refine ⟨.path field below :: more, ?_, ?_⟩
      · rw [hbelow]
        rfl
      · rw [Clause.pairsOf, Clause.pairs, hpairs, hinside]
        rfl

end

end Outline

theorem Outline.Regular.settled {o : Outline} (h : o.Regular) {schema : Schema} {store : Store}
    {owner : Option EntityType} {below : List Clause} (hschema : schema.fieldNames = true)
    (hbelow : Resolves schema store owner o.heads below)
    (hnodup : ((Clause.pairsOf (o.ownClauses ++ below)).map (·.1)).Nodup) :
    Document.Settled (schema.head owner · = .plain)
      (Clause.pairsOf (o.ownClauses ++ below)) := by
  cases h with
  | @mk direct heads hdirect hu hheads hinside =>
    have hstated : ∀ x ∈ Clause.pairsOf (Outline.ownClauses (.mk direct heads) ++ below),
        Stated (schema.head owner · = .plain) heads x := by
      intro x hx
      rw [Clause.pairsOf_append, Outline.pairsOf_ownClauses] at hx
      exact (List.mem_append.mp hx).elim (Stated.of_direct hdirect x)
        (hbelow.stated hschema hu x)
    refine ⟨hnodup, fun x hx => ?_, ?_, fun x hx he hs => ?_, fun x hx head tail hs => ?_⟩
    · exact (hstated x hx).isWhole fun head hh => (hinside head hh).isWhole_leaves
    · exact Stated.apart hstated hu hheads fun head hh => (hinside head hh).apart_leaves
    · rcases (hstated x hx).of_empty hu he hs with ⟨-, -, -, hplain⟩ | ht
      · exact hplain
      · exact Schema.head_of_isToken hschema ht
    · obtain ⟨-, -, -, hplain, -⟩ := (hstated x hx).of_split hu hs
      exact hplain

section Idempotence
variable {schema : Schema} {store : Store} {type : EntityType} {doc : Document}
  {clauses : List Clause}

theorem settled_document (hschema : schema.fieldNames = true)
    (h : (resolve schema store type (Tree.ofDocument doc)).result = .ok clauses) :
    Document.Settled (schema.head (some type) · = .plain) (Clause.document clauses) := by
  obtain ⟨below, hbelow, rfl⟩ := Outline.resolves_of_ok _ h
  have hregular : (Tree.ofDocument doc).outline.Regular :=
    Tree.regular_outline (Tree.ordered_ofDocument doc) fun p c => Tree.isWhole_ofDocument doc
  by_cases hc : Clause.Collide ((Tree.ofDocument doc).outline.ownClauses ++ below)
  · rw [Clause.document_of_collide hc]
    exact .singleton (if_pos rfl) nofun nofun
  · rw [Clause.document_of_not_collide hc]
    exact hregular.settled hschema hbelow (not_not.mp hc)

/-- The filter of resolved clauses, read as conditions again, resolves without a question to clauses
whose filter has the same fields. -/
theorem resolve_idempotent (hschema : schema.fieldNames = true)
    (h : (resolve schema store type (Tree.ofDocument doc)).result = .ok clauses) :
    ∃ again, (resolve schema store type (Clause.tree clauses)).result = .ok again ∧
      (resolve schema store type (Clause.tree clauses)).queries = [] ∧
      (Clause.document again).Perm (Clause.document clauses) := by
  have hsettled := settled_document hschema h
  obtain ⟨again, hagain, hpairs⟩ := Outline.resolve_of_plain schema store
    (Clause.tree clauses).outline (some type) hsettled.plain_of_mem_heads
  have hperm : (Clause.pairsOf again).Perm (Clause.document clauses) := by
    rw [hpairs]
    exact hsettled.perm_leaves
  have hnodup : ((Clause.pairsOf again).map (·.1)).Nodup :=
    (hperm.map (·.1)).nodup_iff.mpr hsettled.nodup
  refine ⟨again, ?_, ?_, ?_⟩
  · rw [resolve, hagain]
    rfl
  · rw [resolve, hagain]
    rfl
  · rwa [Clause.document, Clause.conjoin, if_pos hnodup]

/-- An owner becomes a condition on the field with its identifier, and a subdocument two dotted
keys, one of them beside the empty document. -/
theorem resolve_idempotent_project :
    let schema : Schema := ⟨[("Project", ⟨[("owner", ⟨.foreignKey, some ⟨"Owner"⟩, none⟩)], []⟩)]⟩
    let store : MemoryStore := .ofEntries [(⟨"Owner"⟩, [("_id", .int32 7), ("name", .text "X")])]
    let doc : Document := [("owner", .document [("name", .text "X")]),
      ("m", .document [("a", .int32 1), ("b", .document [])])]
    let clauses : List Clause := [.path "m" [.field "a" (.scalar (.int32 1)),
      .field "b" (.nested [])], .foreignKey "owner_id" [.int32 7]]
    schema.fieldNames = true ∧
      (resolve schema store ⟨"Project"⟩ (Tree.ofDocument doc)).result = .ok clauses ∧
      ∃ again, (resolve schema store ⟨"Project"⟩ (Clause.tree clauses)).result = .ok again ∧
        (resolve schema store ⟨"Project"⟩ (Clause.tree clauses)).queries = [] ∧
        (Clause.document again).Perm [("m.a", .int32 1), ("m.b", .document []),
          ("owner_id", .document [("$in", .array [.int32 7])])] := by
  intro schema store doc clauses
  have hschema : schema.fieldNames = true := by decide
  have hresolve :
      (resolve schema store ⟨"Project"⟩ (Tree.ofDocument doc)).result = .ok clauses := by
    with_unfolding_all rfl
  exact ⟨hschema, hresolve, resolve_idempotent hschema hresolve⟩

end Idempotence
end AccessRules
