import AccessRules.Proofs.Layers

/-! Trees that say more than others. Merging replaces a condition by another one at its path, but it
keeps every condition of a tree that has grown by entries which say nothing else at the paths of the
tree, or which the tree replaces itself. -/
namespace AccessRules

/-- What is stated at routes: a condition, or none at a nested tree. -/
abbrev Statements := Route → Option Condition → Prop

def isTreePlace : Option Condition → Bool
  | none => true
  | some c => c.isNested

namespace Statements
variable {P Q : Statements}

def below (P : Statements) (route : Route) : Statements := fun r a => P (route ++ r) a

/-- The statements behind a head, where its key goes on or where it ends; the head itself is entered
as a tree. -/
def after (P : Statements) (head : String) (divided : Bool) : Statements := fun r a =>
  r ≠ [] ∧ P (⟨head, divided⟩ :: r) a ∨ r = [] ∧ isTreePlace a = true

def under (P : Statements) (head : String) : Statements := fun r a =>
  ∃ divided, P.after head divided r a

def Agree (P Q : Statements) : Prop :=
  ∀ r a b, P r a → Q r b → a = b ∨ isTreePlace a = true ∧ isTreePlace b = true

/-- Added statements replace none of others, which agree with them at one path or outlast them. At
one route the tree holds already what is kept of the two. -/
def Withstand (P added : Statements) : Prop :=
  ∀ r r' a b, r.path = r'.path → P r a → added r' b →
    r = r' ∨ (a = b ∨ isTreePlace a = true ∧ isTreePlace b = true) ∨ r.Outlasts r'

theorem Agree.below (h : Agree P Q) (route : Route) : Agree (P.below route) (Q.below route) :=
  fun _ a b ha hb => h _ a b ha hb

theorem Withstand.under (h : Withstand P Q) (head : String) :
    Withstand (P.under head) (Q.under head) := by
  rintro r r' a b hpath ⟨d, ha⟩ ⟨d', hb⟩
  rcases ha with ⟨hr, ha⟩ | ⟨rfl, ha⟩
  · rcases hb with ⟨-, hb⟩ | ⟨rfl, -⟩
    · rcases h (⟨head, d⟩ :: r) (⟨head, d'⟩ :: r') a b (congrArg (head :: ·) hpath) ha hb with
        heq | hagree | houtlasts
      · exact .inl (List.cons.inj heq).2
      · exact .inr (.inl hagree)
      · exact houtlasts.of_cons.imp_right .inr
    · exact absurd (List.map_eq_nil_iff.mp hpath) hr
  · exact .inl (List.map_eq_nil_iff.mp hpath.symm).symm

theorem Withstand.agree_after (h : Withstand P Q) (head : String) :
    Agree (P.after head false) (Q.after head true) := by
  rintro r a b (⟨hr, ha⟩ | ⟨rfl, ha⟩) (⟨hr', hb⟩ | ⟨hr', hb⟩)
  · rcases h (⟨head, false⟩ :: r) (⟨head, true⟩ :: r) a b rfl ha hb with heq | hagree | houtlasts
    · cases heq
    · exact hagree
    · cases houtlasts with
      | deeper houtlasts => exact absurd houtlasts (Route.Outlasts.irrefl r)
  · exact absurd hr' hr
  · exact absurd rfl hr'
  · exact .inr ⟨ha, hb⟩

end Statements

namespace Condition
variable {P Q : Statements} {c d : Condition}

def Within (P : Statements) (c : Condition) : Prop := ∀ r a, (r, a) ∈ c.statements → P r a

theorem Within.mono (h : c.Within P) (hsub : ∀ r a, P r a → Q r a) : c.Within Q :=
  fun r a hr => hsub r a (h r a hr)

theorem Within.of_mem {tree : Tree} (h : (nested tree).Within P) {key : String}
    (hc : (key, c) ∈ tree) : c.Within (P.below (keyRoute key)) := by
  intro r a hr
  apply h
  exact (mem_placesBy_nested (List.ne_nil_of_mem hc)).mpr
    (.inr (Tree.mem_placesBy.mpr ⟨key, c, r, hc, hr, rfl⟩))

theorem Within.mergeOnto (hc : c.Ordered) (h : c.Within P) {present : Option Condition}
    (hp : ∀ d ∈ present, d.Ordered ∧ d.Within P) : (c.mergeOnto present).Within P := by
  intro r a hm
  rcases mem_placesBy_mergeOnto hc (fun d hd => (hp d hd).1) hm with hm | ⟨d, hd, hm⟩
  · exact h r a hm
  · exact (hp d hd).2 r a hm

theorem mergeOnto_onto_leaf (h : d.isNested = false) : c.mergeOnto (some d) = c := by
  cases d with
  | nested tree => cases h
  | _ => cases c <;> rfl

theorem root_of_leaf (h : c.isNested = false) : ([], some c) ∈ c.statements :=
  (mem_placesBy_nil (.inl h)).mpr ⟨rfl, rfl⟩

theorem root_of_nested (tree : Tree) :
    ∃ a, ([], a) ∈ (nested tree).statements ∧ isTreePlace a = true := by
  by_cases hnil : tree = []
  · subst hnil
    exact ⟨_, (mem_placesBy_nil (.inr rfl)).mpr ⟨rfl, rfl⟩, rfl⟩
  · exact ⟨none, (mem_placesBy_nested hnil).mpr (.inl ⟨rfl, rfl⟩), rfl⟩

theorem exists_statement (c : Condition) : ∃ r a, (r, a) ∈ c.statements := by
  cases c with
  | nested tree =>
    obtain ⟨a, ha, -⟩ := root_of_nested tree
    exact ⟨[], a, ha⟩
  | _ => exact ⟨[], _, root_of_leaf rfl⟩

theorem isTreePlace_of_root {tree : Tree} {a : Option Condition}
    (h : ([], a) ∈ (nested tree).statements) : isTreePlace a = true := by
  by_cases hnil : tree = []
  · subst hnil
    rw [((mem_placesBy_nil (.inr rfl)).mp h).2]
    rfl
  · rcases (mem_placesBy_nested hnil).mp h with ⟨-, rfl⟩ | h
    · rfl
    · obtain ⟨key, d, q, -, -, heq⟩ := Tree.mem_placesBy.mp h
      exact absurd heq.symm (List.append_ne_nil_of_left_ne_nil (keyRoute_ne_nil key) q)

theorem within_after {tree : Tree} {head : String} {divided : Bool}
    (h : ∀ r a, r ≠ [] → (r, a) ∈ (nested tree).statements → P (⟨head, divided⟩ :: r) a) :
    (nested tree).Within (P.after head divided) := by
  intro r a hr
  by_cases hnil : r = []
  · subst hnil
    exact .inr ⟨rfl, isTreePlace_of_root hr⟩
  · exact .inl ⟨hnil, h r a hnil hr⟩

end Condition

/-- What stands at a key before and after a tree has grown by given statements. -/
inductive Grown : Statements → Option Condition → Option Condition → Prop
  | none {P} : Grown P none none
  | added {P c} : c.Ordered → c.Within P → Grown P none (some c)
  | leaf {P c} : c.isNested = false → Grown P (some c) (some c)
  | nested {P tree tree'} : KeyMap.Sorted tree → KeyMap.Sorted tree' →
    (∀ key, Grown (P.below (keyRoute key)) (tree.lookup key) (tree'.lookup key)) →
    Grown P (some (.nested tree)) (some (.nested tree'))

namespace Grown
variable {P Q A : Statements} {c c' : Condition} {o o' : Option Condition} {tree tree' : Tree}

theorem refl (h : c.Ordered) (P : Statements) : Grown P (some c) (some c) := by
  induction h generalizing P with
  | leaf hleaf => exact .leaf hleaf
  | @nested tree hsorted hentries ih =>
    refine .nested hsorted hsorted fun key => ?_
    cases hl : tree.lookup key with
    | none => exact .none
    | some d => exact ih _ (hsorted.lookup_eq_some_iff.mp hl) _

theorem mono (h : Grown P o o') (hsub : ∀ r a, P r a → Q r a) : Grown Q o o' := by
  induction h generalizing Q with
  | none => exact .none
  | added hc hw => exact .added hc (hw.mono hsub)
  | leaf hleaf => exact .leaf hleaf
  | nested hs hs' _ ih => exact .nested hs hs' fun key => ih key fun r a hr => hsub _ a hr

theorem entries (h : Grown P (some (.nested tree)) (some (.nested tree'))) :
    KeyMap.Sorted tree ∧ KeyMap.Sorted tree' ∧
      ∀ key, Grown (P.below (keyRoute key)) (tree.lookup key) (tree'.lookup key) := by
  cases h with
  | leaf hleaf => cases hleaf
  | nested hs hs' hkeys => exact ⟨hs, hs', hkeys⟩

theorem mono_nested (h : Grown P (some (.nested tree)) (some (.nested tree')))
    (hsub : ∀ r a, r ≠ [] → P r a → Q r a) :
    Grown Q (some (.nested tree)) (some (.nested tree')) := by
  obtain ⟨hs, hs', hkeys⟩ := h.entries
  refine .nested hs hs' fun key => (hkeys key).mono fun r a hr => hsub _ a ?_ hr
  exact List.append_ne_nil_of_left_ne_nil (keyRoute_ne_nil key) r

theorem exists_nested (h : Grown P (some (.nested tree)) o') :
    ∃ tree', o' = some (.nested tree') := by
  cases h with
  | leaf hleaf => cases hleaf
  | nested => exact ⟨_, rfl⟩

theorem ordered (h : Grown P o o') : (∀ d ∈ o, d.Ordered) ∧ ∀ d ∈ o', d.Ordered := by
  induction h with
  | none => exact ⟨nofun, nofun⟩
  | added hc _ => exact ⟨nofun, fun d hd => Option.some.inj hd ▸ hc⟩
  | leaf hleaf =>
    exact ⟨fun d hd => Option.some.inj hd ▸ .leaf hleaf,
      fun d hd => Option.some.inj hd ▸ .leaf hleaf⟩
  | nested hs hs' _ ih =>
    refine ⟨fun d hd => ?_, fun d hd => ?_⟩
    · cases hd
      exact .nested hs fun entry he => (ih entry.1).1 _ (hs.lookup_eq_some_iff.mpr he)
    · cases hd
      exact .nested hs' fun entry he => (ih entry.1).2 _ (hs'.lookup_eq_some_iff.mpr he)

theorem within_of_empty (h : Grown P (some (.nested [])) (some (.nested tree')))
    (hroot : ∀ a, isTreePlace a = true → P [] a) : (Condition.nested tree').Within P := by
  obtain ⟨-, hs', hkeys⟩ := h.entries
  intro r a hr
  by_cases hnil : r = []
  · subst hnil
    exact hroot a (Condition.isTreePlace_of_root hr)
  · have htree' : tree' ≠ [] := by
      rintro rfl
      exact hnil ((Condition.mem_placesBy_nil (.inr rfl)).mp hr).1
    obtain ⟨key, d, q, hmem, hq, rfl⟩ :=
      Tree.mem_placesBy.mp (((Condition.mem_placesBy_nested htree').mp hr).resolve_left
        fun hroot => hnil hroot.1)
    have hkey := hkeys key
    rw [hs'.lookup_eq_some_iff.mpr hmem] at hkey
    cases hkey with
    | added _ hw => exact hw q a hq

theorem mergeOnto_added (hc : c.Ordered) (hw : c.Within A) (hsub : ∀ r a, A r a → P r a)
    (hagree : Q.Agree A) (h : Grown P o o') (hbefore : ∀ d ∈ o, d.Within Q) :
    Grown P o (some (c.mergeOnto o')) := by
  induction hc generalizing P Q A o o' with
  | @leaf c hleaf =>
    rw [Condition.mergeOnto_leaf hleaf]
    have hc := hw [] _ (Condition.root_of_leaf hleaf)
    cases h with
    | none => exact .added (.leaf hleaf) (hw.mono hsub)
    | added => exact .added (.leaf hleaf) (hw.mono hsub)
    | @leaf _ d hd =>
      rcases hagree [] _ _ (hbefore d rfl _ _ (Condition.root_of_leaf hd)) hc with heq | htree
      · rw [heq]
        exact .leaf hleaf
      · simp [isTreePlace, hd] at htree
    | @nested _ tree tree' =>
      obtain ⟨a, ha, htree⟩ := Condition.root_of_nested tree
      rcases hagree [] _ _ (hbefore _ rfl _ _ ha) hc with rfl | htree
      · simp [isTreePlace, hleaf] at htree
      · simp [isTreePlace, hleaf] at htree
  | @nested added hsorted hentries ih =>
    have hadded : (Condition.nested added).Ordered := .nested hsorted hentries
    cases h with
    | none => exact .added hadded (hw.mono hsub)
    | @added _ d hd hdw =>
      refine .added (hadded.mergeOnto fun e he => ?_) ((hw.mono hsub).mergeOnto hadded
        fun e he => ?_)
      · cases he
        exact hd
      · cases he
        exact ⟨hd, hdw⟩
    | @leaf _ d hd =>
      obtain ⟨a, ha, htree⟩ := Condition.root_of_nested added
      have hroot := hbefore d rfl _ _ (Condition.root_of_leaf hd)
      rcases hagree [] _ _ hroot (hw _ _ ha) with rfl | hboth
      · simp [isTreePlace, hd] at htree
      · simp [isTreePlace, hd] at hboth
    | @nested _ tree tree' hs hs' hkeys =>
      refine .nested hs (Tree.sorted_mergeEntries added hs') fun key => ?_
      rw [Tree.lookup_mergeEntries hsorted hs']
      cases hl : added.lookup key with
      | none => exact hkeys key
      | some e =>
        have hmem := hsorted.lookup_eq_some_iff.mp hl
        refine ih _ hmem (hw.of_mem hmem) (fun r a => hsub _ a) (hagree.below _) (hkeys key)
          fun d hd => ?_
        exact (hbefore _ rfl).of_mem (hs.lookup_eq_some_iff.mp hd)

/-- Merging tree onto tree, key by key. What one key needs is given for the keys of what is
merged. -/
theorem mergeEntries {added added' : Tree}
    (hadded : Grown A (some (.nested added)) (some (.nested added')))
    (hsub : ∀ r a, A r a → P r a) (hagree : Q.Agree A)
    (hmerge : ∀ entry ∈ added, ∀ {c' o o'},
      Grown (A.below (keyRoute entry.1)) (some entry.2) (some c') →
      Grown (P.below (keyRoute entry.1)) o o' →
      (∀ d ∈ o, d.Within (Q.below (keyRoute entry.1))) →
      Grown (P.below (keyRoute entry.1)) (some (entry.2.mergeOnto o)) (some (c'.mergeOnto o')))
    (h : Grown P (some (.nested tree)) (some (.nested tree')))
    (hbefore : ∀ key, ∀ d ∈ tree.lookup key, d.Within (Q.below (keyRoute key))) :
    Grown P (some (.nested (Tree.mergeEntries added tree)))
      (some (.nested (Tree.mergeEntries added' tree'))) := by
  obtain ⟨hsorted, hsorted', haddedKeys⟩ := hadded.entries
  obtain ⟨hs, hs', hkeys⟩ := h.entries
  refine .nested (Tree.sorted_mergeEntries added hs) (Tree.sorted_mergeEntries added' hs')
    fun key => ?_
  have hkey := haddedKeys key
  rw [Tree.lookup_mergeEntries hsorted hs, Tree.lookup_mergeEntries hsorted' hs']
  cases hl : added.lookup key with
  | none =>
    rw [hl] at hkey
    cases hl' : added'.lookup key with
    | none => exact hkeys key
    | some c' =>
      rw [hl'] at hkey
      cases hkey with
      | added hc hw =>
        exact mergeOnto_added hc hw (fun r a => hsub _ a) (hagree.below _) (hkeys key)
          (hbefore key)
  | some c =>
    rw [hl] at hkey
    cases hl' : added'.lookup key with
    | none =>
      rw [hl'] at hkey
      cases hkey
    | some c' =>
      rw [hl'] at hkey
      exact hmerge _ (hsorted.lookup_eq_some_iff.mp hl) hkey (hkeys key) (hbefore key)

theorem of_empty (h : tree.Ordered) (hw : (Condition.nested tree).Within P) :
    Grown P (some (.nested [])) (some (.nested tree)) := by
  refine .nested List.Pairwise.nil h.sorted fun key => ?_
  cases hl : tree.lookup key with
  | none => exact .none
  | some d =>
    have hmem := h.sorted.lookup_eq_some_iff.mp hl
    exact .added (h.of_mem hmem) (hw.of_mem hmem)

/-- Merging what has grown onto what has grown. What is merged replaces what has been added before,
so only what has been added to it has to agree. -/
theorem mergeOnto (hc : c.Ordered) (hcc : Grown A (some c) (some c'))
    (hsub : ∀ r a, A r a → P r a) (hagree : Q.Agree A) (h : Grown P o o')
    (hbefore : ∀ d ∈ o, d.Within Q) :
    Grown P (some (c.mergeOnto o)) (some (c'.mergeOnto o')) := by
  induction hc generalizing P Q A c' o o' with
  | @leaf c hleaf =>
    cases hcc with
    | leaf =>
      rw [Condition.mergeOnto_leaf hleaf, Condition.mergeOnto_leaf hleaf]
      exact .leaf hleaf
    | nested => cases hleaf
  | @nested added hsorted _ ih =>
    obtain ⟨added', hnested⟩ := hcc.exists_nested
    cases hnested
    have hmerged : ∀ {tree tree' : Tree}, Grown P (some (.nested tree)) (some (.nested tree')) →
        (∀ key, ∀ d ∈ tree.lookup key, d.Within (Q.below (keyRoute key))) →
        Grown P (some (.nested (Tree.mergeEntries added tree)))
          (some (.nested (Tree.mergeEntries added' tree'))) :=
      mergeEntries hcc hsub hagree fun entry he _ _ _ hcc h hbefore =>
        ih entry he hcc (fun r a => hsub _ a) (hagree.below _) h hbefore
    cases h with
    | none => exact hcc.mono hsub
    | leaf hd =>
      rw [Condition.mergeOnto_onto_leaf hd, Condition.mergeOnto_onto_leaf hd]
      exact hcc.mono hsub
    | @added _ d hd hw =>
      cases d with
      | nested tree' =>
        have hgrown := hmerged (of_empty hd hw) fun key => nofun
        rwa [Tree.mergeEntries_nil hsorted] at hgrown
      | _ =>
        rw [Condition.mergeOnto_none, Condition.mergeOnto_onto_leaf rfl]
        exact hcc.mono hsub
    | @nested _ tree tree' hs hs' hkeys =>
      exact hmerged (.nested hs hs' hkeys) fun key d hd =>
        (hbefore _ rfl).of_mem (hs.lookup_eq_some_iff.mp hd)

end Grown

namespace Tree
variable {P Q : Statements} {tree tree' : Tree} {head : String}

theorem nestedAt_eq_some_iff {c : Condition} :
    tree.nestedAt head = some c ↔
      splitKey head = none ∧ tree.lookup head = some c ∧ c.isNested = true := by
  unfold nestedAt
  split
  · next hs => simp [hs, Option.filter_eq_some_iff]
  · next hs => simp [hs]

theorem within_nestedAt (h : KeyMap.Sorted tree) (hbefore : ∀ r a, (r, a) ∈ tree.statements → Q r a)
    (head : String) : ∀ d ∈ tree.nestedAt head, d.Within (Q.after head false) := by
  intro d hd
  obtain ⟨hs, hl, hnested⟩ := nestedAt_eq_some_iff.mp hd
  cases d with
  | nested inside =>
    refine Condition.within_after fun r a _ hr => hbefore _ a (mem_placesBy.mpr ?_)
    refine ⟨head, _, r, h.lookup_eq_some_iff.mp hl, hr, ?_⟩
    rw [leads_keyRoute.undivided hs]
    rfl
  | _ => cases hnested

theorem grown_nestedAt (h : Grown P (some (.nested tree)) (some (.nested tree'))) (head : String) :
    Grown (P.after head false) (tree.nestedAt head) (tree'.nestedAt head) := by
  unfold nestedAt
  split
  · next hs =>
    have hkey := h.entries.2.2 head
    rw [leads_keyRoute.undivided hs] at hkey
    generalize tree.lookup head = o, tree'.lookup head = o' at hkey
    cases hkey with
    | none => exact .none
    | @added _ c hc hw =>
      cases c with
      | nested inside => exact .added hc (Condition.within_after fun r a _ hr => hw r a hr)
      | _ => exact .none
    | leaf hleaf =>
      simp only [Option.filter, hleaf]
      exact .none
    | nested hs₁ hs₂ hkeys =>
      exact (Grown.nested hs₁ hs₂ hkeys).mono_nested fun r a hr hP => .inl ⟨hr, hP⟩
  · exact .none

theorem grown_dotted (h : Grown P (some (.nested tree)) (some (.nested tree'))) (head : String) :
    Grown (P.after head true) (some (.nested (tree.dotted head)))
      (some (.nested (tree'.dotted head))) := by
  obtain ⟨hs, hs', hkeys⟩ := h.entries
  refine .nested (sorted_dotted hs head) (sorted_dotted hs' head) fun tail => ?_
  by_cases hk : splitKey (head ++ "." ++ tail) = some (head, tail)
  · rw [lookup_dotted hk, lookup_dotted hk]
    refine (hkeys _).mono fun r a hr => .inl ⟨?_, ?_⟩
    · exact List.append_ne_nil_of_left_ne_nil (keyRoute_ne_nil tail) r
    · rwa [Statements.below, leads_keyRoute.divided hk] at hr
  · -- no key is divided there
    have hnone : ∀ tree : Tree, (tree.dotted head).lookup tail = none := by
      intro tree
      refine List.lookup_eq_none_iff.mpr fun entry he => ?_
      obtain ⟨key, hsplit, -⟩ := mem_dotted.mp (show (entry.1, entry.2) ∈ _ from he)
      rw [bne_iff_ne]
      rintro rfl
      rw [(splitKey_eq_some_iff.mp hsplit).1] at hsplit
      exact hk hsplit
    rw [hnone, hnone]
    exact .none

theorem grown_under (hwithstand : Q.Withstand P)
    (h : Grown P (some (.nested tree)) (some (.nested tree')))
    (hbefore : ∀ r a, (r, a) ∈ tree.statements → Q r a) (head : String) :
    Grown (P.under head) (tree.under head) (tree'.under head) := by
  obtain ⟨hs, hs', -⟩ := h.entries
  have hagree := hwithstand.agree_after head
  have hsub : ∀ divided r a, P.after head divided r a → P.under head r a :=
    fun divided r a hr => ⟨divided, hr⟩
  have hnested := (grown_nestedAt h head).mono (hsub false)
  have hwithin := within_nestedAt hs hbefore head
  have hdotted := grown_dotted h head
  rw [under_eq hs, under_eq hs']
  by_cases hnil : tree.dotted head = []
  · rw [hnil] at hdotted
    rw [if_pos hnil]
    split
    · exact hnested
    · exact hnested.mergeOnto_added (hdotted.ordered.2 _ rfl)
        (hdotted.within_of_empty fun a ha => .inr ⟨rfl, ha⟩) (hsub true) hagree hwithin
  · have hnil' : tree'.dotted head ≠ [] := by
      intro hnil'
      obtain ⟨⟨tail, c⟩, hc⟩ := List.exists_mem_of_ne_nil _ hnil
      have hkey := hdotted.entries.2.2 tail
      rw [hnil', (sorted_dotted hs head).lookup_eq_some_iff.mpr hc] at hkey
      cases hkey
    rw [if_neg hnil, if_neg hnil']
    exact .mergeOnto (hdotted.ordered.1 _ rfl) hdotted (hsub true) hagree hnested hwithin

end Tree

/-- The owner of what lies below a field, if its type is known. -/
def Schema.below (schema : Schema) (owner : Option EntityType) (field : String) :
    Option EntityType :=
  match schema.head owner field with
  | .related _ target => some target
  | _ => none

/-- The paths to the plain fields that an outline compares with the empty document. -/
inductive Outline.Vacant (schema : Schema) : Option EntityType → Outline → List String → Prop
  | here {owner direct heads field inside} :
    (field, inside) ∈ heads → schema.head owner field = .plain → inside.isEmpty = true →
    Vacant schema owner (.mk direct heads) [field]
  | under {owner direct heads field inside path} :
    (field, inside) ∈ heads → Vacant schema (schema.below owner field) inside path →
    Vacant schema owner (.mk direct heads) (field :: path)

/-- The second outline asks for everything that the first asks for: it has its conditions and its
heads, and leaves a plain field empty that is empty in the first. -/
inductive Outline.KeptBy (schema : Schema) : Option EntityType → Outline → Outline → Prop
  | mk {owner direct direct' heads heads'} :
    (∀ entry ∈ direct, entry ∈ direct') →
    (∀ head ∈ heads, ∃ inside', (head.1, inside') ∈ heads') →
    (∀ field inside inside', (field, inside) ∈ heads → (field, inside') ∈ heads' →
      schema.head owner field = .plain → inside.isEmpty = true → inside'.isEmpty = true) →
    (∀ field inside inside', (field, inside) ∈ heads → (field, inside') ∈ heads' →
      KeptBy schema (schema.below owner field) inside inside') →
    KeptBy schema owner (.mk direct heads) (.mk direct' heads')

namespace Tree
variable {P Q : Statements} {schema : Schema} {owner : Option EntityType} {tree tree' : Tree}
  {field : String} {below below' : Tree}

theorem direct_subset (h : Grown P (some (.nested tree)) (some (.nested tree'))) :
    tree.split.direct ⊆ tree'.split.direct := by
  obtain ⟨hs, hs', hkeys⟩ := h.entries
  rintro ⟨key, c⟩ he
  obtain ⟨hmem, hsplit, hc⟩ := (mem_split_direct hs).mp he
  have hkey := hkeys key
  rw [hs.lookup_eq_some_iff.mpr hmem] at hkey
  refine (mem_split_direct hs').mpr ⟨hs'.lookup_eq_some_iff.mp ?_, hsplit, hc⟩
  generalize tree'.lookup key = o at hkey
  cases hkey with
  | leaf => rfl
  | nested => cases hc

theorem exists_head (hwithstand : Q.Withstand P)
    (h : Grown P (some (.nested tree)) (some (.nested tree')))
    (hbefore : ∀ r a, (r, a) ∈ tree.statements → Q r a)
    (hb : (field, below) ∈ tree.split.heads) : ∃ below', (field, below') ∈ tree'.split.heads := by
  have hgrown := grown_under hwithstand h hbefore field
  rw [(mem_split_heads (h.ordered.1 _ rfl)).mp hb] at hgrown
  obtain ⟨below', hb'⟩ := hgrown.exists_nested
  exact ⟨below', (mem_split_heads (h.ordered.2 _ rfl)).mpr hb'⟩

theorem grown_below (hwithstand : Q.Withstand P)
    (h : Grown P (some (.nested tree)) (some (.nested tree')))
    (hbefore : ∀ r a, (r, a) ∈ tree.statements → Q r a)
    (hb : (field, below) ∈ tree.split.heads) (hb' : (field, below') ∈ tree'.split.heads) :
    Grown (P.under field) (some (.nested below)) (some (.nested below')) := by
  have hgrown := grown_under hwithstand h hbefore field
  rwa [(mem_split_heads (h.ordered.1 _ rfl)).mp hb,
    (mem_split_heads (h.ordered.2 _ rfl)).mp hb'] at hgrown

/-- What a tree says below a head it says itself, behind the head. -/
theorem statements_below (htree : tree.Ordered) (hb : (field, below) ∈ tree.split.heads)
    {r : Route} {a : Option Condition} (hr : (r, a) ∈ below.statements) :
    Statements.under (fun r a => (r, a) ∈ tree.statements) field r a := by
  obtain ⟨key, c, q, hmem, -, heq⟩ := mem_placesBy.mp hr
  have hroute : r ≠ [] := heq ▸ List.append_ne_nil_of_left_ne_nil (keyRoute_ne_nil key) q
  have hstatement : (r, a) ∈ (Condition.nested below).statements :=
    (Condition.mem_placesBy_nested (List.ne_nil_of_mem hmem)).mpr (.inr hr)
  obtain ⟨divided, hfound⟩ | ⟨hnil, -⟩ :=
    mem_placesBy_under leads_keyRoute htree ((mem_split_heads htree).mp hb) hstatement
  · exact ⟨divided, .inl ⟨hroute, hfound⟩⟩
  · exact absurd hnil hroute

/-- Nothing grows below a head behind which nothing is added. -/
theorem eq_nil_of_vacant (h : Grown (P.under field) (some (.nested [])) (some (.nested below')))
    (hvacant : ∀ r a, P r a → ∀ more, r.path = field :: more → more = []) : below' = [] := by
  by_contra hne
  obtain ⟨⟨key, c⟩, hc⟩ := List.exists_mem_of_ne_nil _ hne
  obtain ⟨-, hs', hkeys⟩ := h.entries
  have hkey := hkeys key
  rw [hs'.lookup_eq_some_iff.mpr hc] at hkey
  cases hkey with
  | added _ hwithin =>
    obtain ⟨r, a, hr⟩ := c.exists_statement
    have hroute := List.append_ne_nil_of_left_ne_nil (keyRoute_ne_nil key) r
    obtain ⟨divided, ⟨-, hP⟩ | ⟨hnil, -⟩⟩ := hwithin r a hr
    · exact hroute (List.map_eq_nil_iff.mp (hvacant _ a hP _ rfl))
    · exact hroute hnil

/-- The outline of a tree that has grown keeps what the tree asked for. -/
theorem keptBy_outline (h : Grown P (some (.nested tree)) (some (.nested tree')))
    (hwithstand : Q.Withstand P) (hbefore : ∀ r a, (r, a) ∈ tree.statements → Q r a)
    (hvacant : ∀ p, tree.outline.Vacant schema owner p →
      ∀ r a, P r a → ∀ more, r.path = p ++ more → more = []) :
    Outline.KeptBy schema owner tree.outline tree'.outline := by
  induction tree using Tree.outline.induct generalizing tree' P Q owner with
  | case1 tree ih =>
    have htree : tree.Ordered := h.ordered.1 _ rfl
    rw [outline_eq] at hvacant
    rw [outline_eq, outline_eq]
    refine .mk (fun _ he => direct_subset h he) ?_ ?_ ?_
    · intro head hh
      obtain ⟨⟨field, below⟩, hb, rfl⟩ := List.mem_map.mp hh
      obtain ⟨below', hb'⟩ := exists_head hwithstand h hbefore hb
      exact ⟨outline below', List.mem_map.mpr ⟨(field, below'), hb', rfl⟩⟩
    · intro field inside inside' hi hi' hplain hempty
      have hvacant := hvacant [field] (.here hi hplain hempty)
      obtain ⟨⟨field, below⟩, hb, heq⟩ := List.mem_map.mp hi
      cases heq
      obtain ⟨⟨field, below'⟩, hb', heq⟩ := List.mem_map.mp hi'
      cases heq
      rw [isEmpty_outline, List.isEmpty_iff] at hempty ⊢
      subst hempty
      exact eq_nil_of_vacant (grown_below hwithstand h hbefore hb hb') hvacant
    · intro field inside inside' hi hi'
      obtain ⟨⟨field, below⟩, hb, heq⟩ := List.mem_map.mp hi
      cases heq
      obtain ⟨⟨field, below'⟩, hb', heq⟩ := List.mem_map.mp hi'
      cases heq
      refine ih ⟨_, hb⟩ (grown_below hwithstand h hbefore hb hb') (hwithstand.under field)
        (fun r a hr => ?_) fun p hp r a hP more hpath => ?_
      · obtain ⟨divided, hroute⟩ := statements_below htree hb hr
        exact ⟨divided, hroute.imp_left fun hr => ⟨hr.1, hbefore _ a hr.2⟩⟩
      · obtain ⟨divided, ⟨-, hP⟩ | ⟨rfl, -⟩⟩ := hP
        · exact hvacant (field :: p) (.under hi hp) _ a hP more (congrArg (field :: ·) hpath)
        · exact (List.append_eq_nil_iff.mp hpath.symm).2

end Tree
end AccessRules
