import XmlRecords.Xml.Node

/-!
The characters of document trees: those of texts and attribute values, which are all that records
are read from.
-/

set_option autoImplicit false
set_option relaxedAutoImplicit false

namespace XmlRecords.Xml

abbrev Legible (cs : List Char) : Prop := ∀ c ∈ cs, isXmlChar c = true

def StartTag.characters (tag : StartTag) : List Char := tag.attributes.flatMap (·.value.toList)

mutual
def Node.characters : Node → List Char
  | .element tag children => tag.characters ++ Node.charactersOfAll children
  | .text s => s.toList
  | _ => []

def Node.charactersOfAll : List Node → List Char
  | [] => []
  | node :: nodes => node.characters ++ Node.charactersOfAll nodes
end

theorem Node.charactersOfAll_append (nodes others : List Node) :
    Node.charactersOfAll (nodes ++ others) =
      Node.charactersOfAll nodes ++ Node.charactersOfAll others := by
  induction nodes with
  | nil => rfl
  | cons node nodes ih =>
    rw [List.cons_append, Node.charactersOfAll, Node.charactersOfAll, ih, List.append_assoc]

theorem legible_of_all {cs : List Char} (all : cs.all isXmlChar = true) : Legible cs :=
  List.all_eq_true.mp all

theorem legible_append {cs ds : List Char} : Legible (cs ++ ds) ↔ Legible cs ∧ Legible ds :=
  List.forall_mem_append

theorem legible_intercalate {separator : List Char} {parts : List (List Char)}
    (separatorFit : Legible separator) (partsFit : ∀ part ∈ parts, Legible part) :
    Legible (separator.intercalate parts) := by
  induction parts with
  | nil => simp [Legible]
  | cons part parts ih =>
    obtain ⟨here, below⟩ := List.forall_mem_cons.mp partsFit
    cases parts with
    | nil => rwa [List.intercalate_singleton]
    | cons next parts =>
      rw [List.intercalate_cons_cons, legible_append, legible_append]
      exact ⟨⟨here, separatorFit⟩, ih below⟩

/-- The parts between marks are free of marks, and their characters stand in the whole. -/
theorem mem_of_mem_splitOnP {mark : Char → Bool} {cs part : List Char}
    (member : part ∈ cs.splitOnP mark) {c : Char} (inside : c ∈ part) : mark c = false ∧ c ∈ cs := by
  induction cs generalizing part with
  | nil =>
    rw [List.splitOnP_nil, List.mem_singleton] at member
    subst member
    cases inside
  | cons d cs ih =>
    rw [List.splitOnP_cons_eq_if_modifyHead] at member
    split at member
    · rcases List.mem_cons.mp member with rfl | below
      · cases inside
      · obtain ⟨solid, listed⟩ := ih below inside
        exact ⟨solid, List.mem_cons_of_mem d listed⟩
    · rename_i solid
      cases parts : cs.splitOnP mark with
      | nil => exact absurd parts (List.splitOnP_ne_nil _ _)
      | cons first rest =>
        rw [parts] at ih
        rw [parts, List.modifyHead_cons] at member
        rcases List.mem_cons.mp member with rfl | below
        · rcases List.mem_cons.mp inside with rfl | later
          · exact ⟨by simpa using solid, List.mem_cons_self⟩
          · obtain ⟨solid, listed⟩ := ih List.mem_cons_self later
            exact ⟨solid, List.mem_cons_of_mem d listed⟩
        · obtain ⟨solid, listed⟩ := ih (List.mem_cons_of_mem first below) inside
          exact ⟨solid, List.mem_cons_of_mem d listed⟩

theorem legible_directText {nodes : List Node} (legible : Legible (Node.charactersOfAll nodes)) :
    Legible (Node.directText nodes).toList := by
  induction nodes with
  | nil => simp [Node.directText, Legible]
  | cons node nodes ih =>
    rw [Node.charactersOfAll, legible_append] at legible
    have below := ih legible.2
    cases node with
    | text s =>
      rw [Node.directText, String.toList_append, legible_append]
      exact ⟨legible.1, below⟩
    | element tag children => exact below
    | comment s => exact below
    | instruction target data => exact below

theorem legible_of_mem_elementsOf {nodes : List Node} (legible : Legible (Node.charactersOfAll nodes))
    {child : StartTag × List Node} (member : child ∈ Node.elementsOf nodes) :
    Legible (Node.element child.1 child.2).characters := by
  induction nodes with
  | nil => cases member
  | cons node nodes ih =>
    rw [Node.charactersOfAll, legible_append] at legible
    cases node with
    | element tag children =>
      rcases List.mem_cons.mp member with rfl | below
      · exact legible.1
      · exact ih legible.2 below
    | text s => exact ih legible.2 member
    | comment s => exact ih legible.2 member
    | instruction target data => exact ih legible.2 member

theorem legible_attributeValue {tag : StartTag} (legible : Legible tag.characters) {name raw : String}
    (found : attributeValue tag.attributes name = .ok raw) : Legible raw.toList := by
  have given {a : Attribute} (member : a ∈ tag.attributes) : Legible a.value.toList :=
    fun c inside => legible c (List.mem_flatMap.mpr ⟨a, member, inside⟩)
  unfold attributeValue at found
  cases query : attributeQuery name with
  | error fault =>
    rw [query] at found
    cases found
  | ok asked =>
    rw [query] at found
    simp only [bind, Except.bind, pure, Except.pure] at found
    split at found
    · rename_i a first
      obtain rfl := Except.ok.inj found
      exact given (List.mem_of_find?_eq_some first)
    · split at found
      · rename_i a first
        obtain rfl := Except.ok.inj found
        exact given (List.mem_of_find?_eq_some first)
      · obtain rfl := Except.ok.inj found
        simp [Legible]

end XmlRecords.Xml
