import PageQuery.Proofs.Dangling
/-!
# What a description leaves

A description is read line by line.  A line puts its attribute at the end, in place of one of its name; and a line that
declares an identity takes away the identity there was, whatever had become of it.  So what is left is what the last
lines on their names declare, in the order of these lines, and an identity is always among it, just once, even where
its name was declared again as something else.
-/
namespace PageQuery

namespace Declaration

def initial : Declaration := .identity "id" "id" .integer

def identityName? : Declaration → Option String
  | .identity name _ _ => some name
  | _ => none

def leaves (d : Declaration) (identity name : String) : Bool :=
  name != d.declared.name && (d.identityName?.isNone || name != identity)

end Declaration

def identityAfter? (lines : List Declaration) : Option String := (lines.filterMap Declaration.identityName?).getLast?

/-- Line `i` declares the attribute, no line after it declares the name again, and none replaces an identity that has
the name by then. -/
structure Remains (lines : List Declaration) (i : Nat) (a : Attribute) : Prop where
  line : ∃ d, lines[i]? = some d ∧ d.declared = a
  last : ∀ j d, i < j → lines[j]? = some d → d.declared.name ≠ a.name
  kept : ∀ j d, i < j → lines[j]? = some d → d.identityName?.isSome = true → identityAfter? (lines.take j) ≠ some a.name

theorem identityAfter?_concat (lines : List Declaration) (d : Declaration) :
    identityAfter? (lines ++ [d]) = d.identityName?.or (identityAfter? lines) := by
  unfold identityAfter?
  rw [List.filterMap_append]
  cases hd : d.identityName? <;> simp [hd]

theorem getElem?_concat_eq_some {α : Type} {xs : List α} {x y : α} {j : Nat} :
    (xs ++ [x])[j]? = some y ↔ xs[j]? = some y ∨ (j = xs.length ∧ y = x) := by
  rw [List.getElem?_append]
  by_cases hj : j < xs.length
  · simp [hj, Nat.ne_of_lt hj]
  · rw [if_neg hj, List.getElem?_singleton, List.getElem?_eq_none (Nat.le_of_not_lt hj)]
    by_cases heq : j = xs.length
    · simp [heq, eq_comm]
    · have : ¬j - xs.length = 0 := by omega
      simp [heq, this]

theorem leaves_iff {d : Declaration} {identity name : String} : d.leaves identity name = true ↔
    d.declared.name ≠ name ∧ (d.identityName?.isSome = true → identity ≠ name) := by
  unfold Declaration.leaves
  rw [Bool.and_eq_true, bne_iff_ne, ne_comm, Bool.or_eq_true, bne_iff_ne, ne_comm (a := name)]
  cases d.identityName? <;> simp

theorem remains_here (lines : List Declaration) (d : Declaration) : Remains (lines ++ [d]) lines.length d.declared := by
  have hnone : ∀ {j e}, lines.length < j → (lines ++ [d])[j]? ≠ some e := fun {j e} hj he => by
    rcases getElem?_concat_eq_some.1 he with he | ⟨rfl, -⟩
    · exact Nat.lt_asymm hj (List.getElem?_eq_some_iff.1 he).1
    · exact Nat.lt_irrefl _ hj
  exact ⟨⟨d, getElem?_concat_eq_some.2 (.inr ⟨rfl, rfl⟩), rfl⟩, fun j e hj he => (hnone hj he).elim,
    fun j e hj he => (hnone hj he).elim⟩

/-- What remains after one line more: its own attribute, and what it leaves of all there was before. -/
theorem remains_concat {lines : List Declaration} {identity : String} (hidentity : identityAfter? lines = some identity)
    {d : Declaration} {i : Nat} {a : Attribute} :
    Remains (lines ++ [d]) i a ↔
      (Remains lines i a ∧ d.leaves identity a.name = true) ∨ (i = lines.length ∧ a = d.declared) := by
  have hlt : ∀ {j e}, lines[j]? = some e → j < lines.length := fun h => (List.getElem?_eq_some_iff.1 h).1
  have htake : ∀ {j e}, lines[j]? = some e → (lines ++ [d]).take j = lines.take j := fun h =>
    List.take_append_of_le_length (Nat.le_of_lt (hlt h))
  have hhere : (lines ++ [d])[lines.length]? = some d := getElem?_concat_eq_some.2 (.inr ⟨rfl, rfl⟩)
  constructor
  · intro h
    obtain ⟨e, he, rfl⟩ := h.line
    rcases getElem?_concat_eq_some.1 he with he | ⟨rfl, rfl⟩
    · have hkept := h.kept _ d (hlt he) hhere
      rw [List.take_left, hidentity] at hkept
      refine .inl ⟨⟨⟨e, he, rfl⟩, fun j f hj hf => ?_, fun j f hj hf hreplaces => ?_⟩,
        leaves_iff.2 ⟨?_, fun hd heq => ?_⟩⟩
      · exact h.last j f hj (getElem?_concat_eq_some.2 (.inl hf))
      · exact htake hf ▸ h.kept j f hj (getElem?_concat_eq_some.2 (.inl hf)) hreplaces
      · exact h.last _ d (hlt he) hhere
      · exact hkept hd (congrArg some heq)
    · exact .inr ⟨rfl, rfl⟩
  · rintro (⟨h, hleaves⟩ | ⟨rfl, rfl⟩)
    · obtain ⟨e, he, rfl⟩ := h.line
      obtain ⟨hname, hreplaced⟩ := leaves_iff.1 hleaves
      refine ⟨⟨e, getElem?_concat_eq_some.2 (.inl he), rfl⟩, fun j f hj hf => ?_, fun j f hj hf hreplaces => ?_⟩
      · rcases getElem?_concat_eq_some.1 hf with hf | ⟨rfl, rfl⟩
        · exact h.last j f hj hf
        · exact hname
      · rcases getElem?_concat_eq_some.1 hf with hf | ⟨rfl, rfl⟩
        · exact (htake hf).symm ▸ h.kept j f hj hf hreplaces
        · rw [List.take_left, hidentity]
          exact fun heq => hreplaced hreplaces (Option.some.inj heq)
    · exact remains_here lines d

namespace Entity
variable {e : Entity} {lines : List Declaration}

theorem identity_declare (e : Entity) (d : Declaration) : (e.declare d).identity = d.identityName?.getD e.identity := by
  cases d <;> rfl

theorem attributes_declare (e : Entity) (d : Declaration) :
    (e.declare d).attributes = (e.attributes.filter fun a => d.leaves e.identity a.name) ++ [d.declared] := by
  cases d with
  | identity name column type =>
    show (e.attributes.filter _).filter _ ++ _ = _
    rw [List.filter_filter]
    rfl
  | scalar | scalarColumn | toOne | toMany | collection =>
    simp [declare, push, without, Declaration.leaves, Declaration.identityName?]

/-- The attributes are those that remain, in the order of their lines, and the identity is the last one declared. -/
structure LeftBy (e : Entity) (lines : List Declaration) : Prop where
  identity : identityAfter? lines = some e.identity
  attributes : ∃ placed : List (Nat × Attribute), placed.map Prod.snd = e.attributes ∧
    (placed.map Prod.fst).Pairwise (· < ·) ∧ ∀ i a, (i, a) ∈ placed ↔ Remains lines i a

theorem leftBy_new (name table : String) : (new name table).LeftBy [.initial] where
  identity := rfl
  attributes := by
    refine ⟨[(0, Declaration.initial.declared)], rfl, List.pairwise_singleton .., fun i a => ⟨fun h => ?_, fun h => ?_⟩⟩
    · obtain ⟨rfl, rfl⟩ := Prod.mk.inj (List.mem_singleton.1 h)
      exact remains_here [] _
    · obtain ⟨d, hd, rfl⟩ := h.line
      obtain ⟨rfl, rfl⟩ : i = 0 ∧ Declaration.initial = d := by simpa [List.getElem?_singleton] using hd
      exact List.mem_singleton_self _

theorem LeftBy.declare (h : e.LeftBy lines) (d : Declaration) : (e.declare d).LeftBy (lines ++ [d]) where
  identity := by
    rw [identityAfter?_concat, h.identity, identity_declare]
    cases d.identityName? <;> rfl
  attributes := by
    obtain ⟨placed, hattributes, hordered, hremains⟩ := h.attributes
    refine ⟨(placed.filter fun p => d.leaves e.identity p.2.name) ++ [(lines.length, d.declared)], ?_, ?_,
      fun i a => ?_⟩
    · rw [attributes_declare, ← hattributes, List.map_append, List.filter_map]
      rfl
    · rw [List.map_append, List.pairwise_append]
      refine ⟨hordered.sublist (List.filter_sublist.map _), List.pairwise_singleton .., fun i hi j hj => ?_⟩
      obtain ⟨p, hp, rfl⟩ := List.mem_map.1 hi
      obtain ⟨f, hf, -⟩ := ((hremains p.1 p.2).1 (List.mem_filter.1 hp).1).line
      rw [List.mem_singleton.1 hj]
      exact (List.getElem?_eq_some_iff.1 hf).1
    · rw [List.mem_append, List.mem_filter, hremains, List.mem_singleton, remains_concat h.identity, Prod.mk.injEq]

theorem leftBy_ofDeclarations (name table : String) (ds : List Declaration) :
    (ofDeclarations name table ds).LeftBy (.initial :: ds) := by
  unfold ofDeclarations
  induction ds using List.reverseRecOn with
  | nil => exact leftBy_new name table
  | append_singleton ds d ih =>
    rw [List.foldl_append, ← List.cons_append]
    exact ih.declare d

def HasIdentity (e : Entity) : Prop := ∃ a ∈ e.attributes, a.name = e.identity

theorem HasIdentity.declare (h : e.HasIdentity) (d : Declaration) : (e.declare d).HasIdentity := by
  have hdeclared : d.declared ∈ (e.declare d).attributes := by
    rw [attributes_declare]
    exact List.mem_append_right _ (List.mem_singleton_self _)
  by_cases hnew : d.declared.name = (e.declare d).identity
  · exact ⟨d.declared, hdeclared, hnew⟩
  · -- the line declares no identity, so the one there was is left
    obtain ⟨a, ha, hname⟩ := h
    cases d with
    | identity => exact (hnew rfl).elim
    | scalar | scalarColumn | toOne | toMany | collection =>
      refine ⟨a, List.mem_append_left _ (List.mem_filter.2 ⟨ha, ?_⟩), hname⟩
      rw [bne_iff_ne, hname]
      exact Ne.symm hnew

theorem hasIdentity_ofDeclarations (name table : String) (ds : List Declaration) :
    (ofDeclarations name table ds).HasIdentity := by
  unfold ofDeclarations
  induction ds using List.reverseRecOn with
  | nil => exact ⟨_, List.mem_singleton_self _, rfl⟩
  | append_singleton ds d ih =>
    rw [List.foldl_append]
    exact ih.declare d

theorem filter_name_of_mem (hnames : (e.attributes.map Attribute.name).Nodup) {a : Attribute} (ha : a ∈ e.attributes) :
    (e.attributes.filter fun b => b.name == a.name) = [a] := by
  obtain ⟨before, after, hsplit⟩ := List.append_of_mem ha
  rw [hsplit, List.map_append, List.map_cons, List.nodup_middle, List.nodup_cons, ← List.map_append] at hnames
  have hother : ∀ b ∈ before ++ after, ¬(b.name == a.name) = true := fun b hb heq =>
    hnames.1 (beq_iff_eq.1 heq ▸ List.mem_map_of_mem hb)
  have hbefore : (before.filter fun b => b.name == a.name) = [] :=
    List.filter_eq_nil_iff.2 fun b hb => hother b (List.mem_append_left _ hb)
  have hafter : (after.filter fun b => b.name == a.name) = [] :=
    List.filter_eq_nil_iff.2 fun b hb => hother b (List.mem_append_right _ hb)
  rw [hsplit, List.filter_append, List.filter_cons, if_pos (beq_self_eq_true _), hbefore, hafter, List.nil_append]

end Entity

/-- **What a description leaves.**  Whatever its lines are, no two attributes have one name, and there is one that has
the name of the identity: it is the identity attribute, found under its name and not for want of it.  The attributes are
those that remain of the entity's first identity and the lines, in the order in which they were last declared. -/
theorem description_keeps_identity (name table : String) (ds : List Declaration) :
    let e := Entity.ofDeclarations name table ds
    (e.attributes.map Attribute.name).Nodup ∧ e.attributes ≠ [] ∧
      (e.attributes.filter fun a => a.name == e.identity) = [e.identityAttribute] ∧
      e.lookup? e.identity = some e.identityAttribute ∧ e.LeftBy (.initial :: ds) := by
  intro e
  have hnames : (e.attributes.map Attribute.name).Nodup := Entity.Described.nodup ⟨name, table, ds, rfl⟩
  obtain ⟨a, ha, hname⟩ : e.HasIdentity := Entity.hasIdentity_ofDeclarations name table ds
  have hfound : e.lookup? e.identity = some a := hname ▸ Entity.lookup?_of_lookup (Entity.lookup_of_mem hnames ha)
  have hidentity : e.identityAttribute = a := by
    unfold Entity.identityAttribute
    rw [hfound]
  refine ⟨hnames, List.ne_nil_of_mem ha, ?_, ?_, Entity.leftBy_ofDeclarations name table ds⟩
  · rw [hidentity, ← hname]
    exact Entity.filter_name_of_mem hnames ha
  · rw [hidentity, hfound]

-- the key is declared again as something else and goes with the identity that it was; the first identity's name is free
example :
    (Entity.ofDeclarations "person" "people" [.identity "key" "person_key" .text, .scalar "key" .integer,
      .identity "number" "number" .integer, .toOne "id" "card" "card_id"]).attributes =
        [⟨"number", .integer, .column "number"⟩, ⟨"id", .reference "card", .toOne "card" "card_id"⟩] := by decide

end PageQuery
