import XmlRecords.Proofs.Characters
import XmlRecords.Xml.Raw

/-!
The characters that the lexer hands on: each stands in the document or is given by a reference, and
what is left to read is an end of the document.
-/

set_option autoImplicit false
set_option relaxedAutoImplicit false

namespace XmlRecords.Xml

theorem Legible.suffix {cs rest : List Char} (legible : Legible cs) (isEnd : rest <:+ cs) :
    Legible rest := fun c member => legible c (isEnd.subset member)

/-! ### What is left to read -/

theorem suffix_of_dropText? {text : String} {cs rest : List Char}
    (taken : dropText? text cs = some rest) : rest <:+ cs := by
  unfold dropText? at taken
  split at taken
  · obtain rfl := Option.some.inj taken
    exact List.drop_suffix _ cs
  · cases taken

theorem skipBlanks_suffix (cs : List Char) : skipBlanks cs <:+ cs := List.dropWhile_suffix _

theorem suffix_of_skipBlanks {cs rest : List Char} {c : Char} (skipped : skipBlanks cs = c :: rest) :
    rest <:+ cs := by
  have ends := skipBlanks_suffix cs
  rw [skipped] at ends
  exact (List.suffix_cons c rest).trans ends

theorem suffix_of_skipBlanks? {cs rest : List Char} (taken : skipBlanks? cs = some rest) :
    rest <:+ cs := by
  cases cs with
  | nil => cases taken
  | cons c cs =>
    rw [skipBlanks?] at taken
    split at taken
    · obtain rfl := Option.some.inj taken
      exact (skipBlanks_suffix cs).trans (List.suffix_cons c cs)
    · cases taken

theorem suffix_of_takeName? {cs rest : List Char} {name : String}
    (taken : takeName? cs = some (name, rest)) : rest <:+ cs := by
  unfold takeName? at taken
  simp only at taken
  split at taken
  · obtain ⟨_, rfl⟩ := Prod.mk.inj (Option.some.inj taken)
    exact List.drop_suffix _ cs
  · cases taken

theorem parts_of_takeQuoted? {cs body rest : List Char}
    (taken : takeQuoted? cs = some (body, rest)) : body ⊆ cs ∧ rest <:+ cs := by
  cases cs with
  | nil => cases taken
  | cons quote cs =>
    rw [takeQuoted?] at taken
    split at taken
    · simp only at taken
      split at taken
      · cases taken
      · rename_i mark rest' after
        obtain ⟨rfl, rfl⟩ := Prod.mk.inj (Option.some.inj taken)
        have ends : mark :: rest' <:+ cs := after ▸ List.drop_suffix _ cs
        exact ⟨fun c member => List.mem_cons_of_mem quote (List.takeWhile_subset _ member),
          (List.suffix_cons mark rest').trans (ends.trans (List.suffix_cons quote cs))⟩
    · cases taken

theorem parts_of_splitAround? {mark cs before after : List Char}
    (taken : splitAround? mark cs = some (before, after)) : before ⊆ cs ∧ after <:+ cs := by
  induction cs generalizing before after with
  | nil =>
    rw [splitAround?] at taken
    split at taken
    · obtain ⟨rfl, rfl⟩ := Prod.mk.inj (Option.some.inj taken)
      exact ⟨List.Subset.refl _, List.suffix_rfl⟩
    · cases taken
  | cons c cs ih =>
    rw [splitAround?] at taken
    split at taken
    · obtain ⟨rfl, rfl⟩ := Prod.mk.inj (Option.some.inj taken)
      exact ⟨List.nil_subset _, List.drop_suffix _ _⟩
    · obtain ⟨⟨first, rest⟩, below, same⟩ := Option.map_eq_some_iff.mp taken
      obtain ⟨rfl, rfl⟩ := Prod.mk.inj same
      obtain ⟨inside, ends⟩ := ih below
      exact ⟨List.cons_subset_cons c inside, ends.trans (List.suffix_cons c cs)⟩

theorem suffix_of_takeEquals? {cs rest : List Char} (taken : takeEquals? cs = some rest) :
    rest <:+ cs := by
  unfold takeEquals? at taken
  split at taken
  · rename_i rest' skipped
    obtain rfl := Option.some.inj taken
    exact (skipBlanks_suffix rest').trans (suffix_of_skipBlanks skipped)
  · cases taken

theorem suffix_of_takeComment? {cs rest : List Char} {s : String}
    (taken : takeComment? cs = some (s, rest)) : rest <:+ cs := by
  unfold takeComment? at taken
  split at taken
  · rename_i body rest' around
    obtain ⟨_, rfl⟩ := Prod.mk.inj (Option.some.inj taken)
    exact (List.suffix_cons '>' rest').trans (parts_of_splitAround? around).2
  · cases taken

theorem suffix_of_takeInstruction? {cs rest : List Char} {target data : String}
    (taken : takeInstruction? cs = some (target, data, rest)) : rest <:+ cs := by
  unfold takeInstruction? at taken
  obtain ⟨⟨name, named⟩, isName, taken⟩ := Option.bind_eq_some_iff.mp taken
  have ends := suffix_of_takeName? isName
  simp only at taken
  split at taken
  · cases taken
  · split at taken
    · rename_i rest' closed
      obtain ⟨_, same⟩ := Prod.mk.inj (Option.some.inj taken)
      obtain ⟨_, rfl⟩ := Prod.mk.inj same
      exact (suffix_of_dropText? closed).trans ends
    · obtain ⟨skipped, blank, taken⟩ := Option.bind_eq_some_iff.mp taken
      obtain ⟨⟨before, after⟩, around, taken⟩ := Option.bind_eq_some_iff.mp taken
      obtain ⟨_, same⟩ := Prod.mk.inj (Option.some.inj taken)
      obtain ⟨_, rfl⟩ := Prod.mk.inj same
      exact (parts_of_splitAround? around).2.trans ((suffix_of_skipBlanks? blank).trans ends)

/-! ### Pieces -/

/-- Holds of pieces other than characters that documents may not hold. -/
def Piece.IsLegible : Piece → Prop
  | .literal c => isXmlChar c = true
  | .character c => isXmlChar c = true
  | .entity _ => True

theorem isXmlChar_of_charOfCode? {code : Nat} {c : Char} (given : charOfCode? code = some c) :
    isXmlChar c = true := by
  unfold charOfCode? at given
  by_cases valid : code.isValidChar
  · rw [dif_pos valid] at given
    obtain ⟨fit, same⟩ := Option.ite_none_right_eq_some.mp given
    obtain rfl := Option.some.inj same
    exact fit
  · rw [dif_neg valid] at given
    cases given

theorem isXmlChar_of_predefined? {name : String} {c : Char} (given : predefined? name = some c) :
    isXmlChar c = true := by
  unfold predefined? at given
  split at given
  · obtain rfl := Option.some.inj given
    decide
  · obtain rfl := Option.some.inj given
    decide
  · obtain rfl := Option.some.inj given
    decide
  · obtain rfl := Option.some.inj given
    decide
  · obtain rfl := Option.some.inj given
    decide
  · cases given

theorem legible_of_reference? {body : List Char} {piece : Piece}
    (given : reference? body = some piece) : piece.IsLegible := by
  unfold reference? at given
  split at given
  · obtain ⟨c, isChar, rfl⟩ := Option.map_eq_some_iff.mp given
    obtain ⟨code, _, isChar⟩ := Option.bind_eq_some_iff.mp isChar
    exact isXmlChar_of_charOfCode? isChar
  · obtain ⟨c, isChar, rfl⟩ := Option.map_eq_some_iff.mp given
    obtain ⟨code, _, isChar⟩ := Option.bind_eq_some_iff.mp isChar
    exact isXmlChar_of_charOfCode? isChar
  · split at given
    · split at given
      · rename_i c isChar
        obtain rfl := Option.some.inj given
        exact isXmlChar_of_predefined? isChar
      · obtain rfl := Option.some.inj given
        trivial
    · cases given

theorem legible_of_pieces? {reading : Option (List Char)} {cs : List Char} (legible : Legible cs)
    {pieces : List Piece} (given : pieces? reading cs = some pieces) :
    ∀ piece ∈ pieces, piece.IsLegible := by
  induction cs generalizing reading pieces with
  | nil =>
    cases reading with
    | none =>
      obtain rfl := Option.some.inj given
      simp
    | some read => cases given
  | cons c cs ih =>
    obtain ⟨here, below⟩ := List.forall_mem_cons.mp legible
    cases reading with
    | none =>
      rw [pieces?] at given
      split at given
      · exact ih below given
      · obtain ⟨rest, isRest, rfl⟩ := Option.map_eq_some_iff.mp given
        exact List.forall_mem_cons.mpr ⟨here, ih below isRest⟩
    | some read =>
      rw [pieces?] at given
      split at given
      · split at given
        · rename_i piece isPiece
          obtain ⟨rest, isRest, rfl⟩ := Option.map_eq_some_iff.mp given
          exact List.forall_mem_cons.mpr ⟨legible_of_reference? isPiece, ih below isRest⟩
        · cases given
      · exact ih below given

/-! ### Tokens -/

theorem legible_of_takeValue? {cs rest : List Char} (legible : Legible cs) {pieces : List Piece}
    (taken : takeValue? cs = some (pieces, rest)) :
    (∀ piece ∈ pieces, piece.IsLegible) ∧ rest <:+ cs := by
  unfold takeValue? at taken
  obtain ⟨⟨body, rest'⟩, quoted, taken⟩ := Option.bind_eq_some_iff.mp taken
  obtain ⟨inside, ends⟩ := parts_of_takeQuoted? quoted
  simp only at taken
  split at taken
  · cases taken
  · obtain ⟨pieces', isPieces, taken⟩ := Option.bind_eq_some_iff.mp taken
    obtain ⟨rfl, rfl⟩ := Prod.mk.inj (Option.some.inj taken)
    exact ⟨legible_of_pieces? (fun c member => legible c (inside member)) isPieces, ends⟩

def LegibleValues (attributes : List (String × List Piece)) : Prop :=
  ∀ a ∈ attributes, ∀ piece ∈ a.2, piece.IsLegible

theorem legible_of_takeAttributes? {fuel : Nat} {cs rest : List Char} (legible : Legible cs)
    {attributes : List (String × List Piece)} {closed : Bool}
    (taken : takeAttributes? fuel cs = some (attributes, closed, rest)) :
    LegibleValues attributes ∧ rest <:+ cs := by
  induction fuel generalizing cs attributes closed rest with
  | zero => cases taken
  | succ fuel ih =>
    rw [takeAttributes?] at taken
    split at taken
    · rename_i rest' skipped
      obtain ⟨rfl, same⟩ := Prod.mk.inj (Option.some.inj taken)
      obtain ⟨_, rfl⟩ := Prod.mk.inj same
      exact ⟨by simp [LegibleValues], suffix_of_skipBlanks skipped⟩
    · rename_i rest' skipped
      obtain ⟨rfl, same⟩ := Prod.mk.inj (Option.some.inj taken)
      obtain ⟨_, rfl⟩ := Prod.mk.inj same
      exact ⟨by simp [LegibleValues], (List.suffix_cons '>' rest').trans
        (suffix_of_skipBlanks skipped)⟩
    · obtain ⟨blank, isBlank, taken⟩ := Option.bind_eq_some_iff.mp taken
      obtain ⟨⟨name, named⟩, isName, taken⟩ := Option.bind_eq_some_iff.mp taken
      obtain ⟨equals, isEquals, taken⟩ := Option.bind_eq_some_iff.mp taken
      obtain ⟨⟨value, valued⟩, isValue, taken⟩ := Option.bind_eq_some_iff.mp taken
      obtain ⟨⟨others, closed', rest'⟩, isRest, taken⟩ := Option.bind_eq_some_iff.mp taken
      obtain ⟨rfl, same⟩ := Prod.mk.inj (Option.some.inj taken)
      obtain ⟨_, rfl⟩ := Prod.mk.inj same
      have ends : equals <:+ cs := (suffix_of_takeEquals? isEquals).trans
        ((suffix_of_takeName? isName).trans (suffix_of_skipBlanks? isBlank))
      obtain ⟨valueFit, valueEnds⟩ := legible_of_takeValue? (legible.suffix ends) isValue
      have valuedEnds := valueEnds.trans ends
      obtain ⟨othersFit, restEnds⟩ := ih (legible.suffix valuedEnds) isRest
      exact ⟨List.forall_mem_cons.mpr ⟨valueFit, othersFit⟩, restEnds.trans valuedEnds⟩

def Token.IsLegible : Token → Prop
  | .characters pieces => ∀ piece ∈ pieces, piece.IsLegible
  | .cdata s => Legible s.toList
  | .opening _ attributes _ => LegibleValues attributes
  | _ => True

theorem legible_of_takeMarkup? {fuel : Nat} {cs rest : List Char} (legible : Legible cs)
    {token : Token} (taken : takeMarkup? fuel cs = some (token, rest)) :
    token.IsLegible ∧ rest <:+ cs := by
  unfold takeMarkup? at taken
  split at taken
  · rename_i rest'
    obtain ⟨⟨s, after⟩, isComment, same⟩ := Option.map_eq_some_iff.mp taken
    obtain ⟨rfl, rfl⟩ := Prod.mk.inj same
    exact ⟨trivial, (suffix_of_takeComment? isComment).trans
      (List.suffix_append ['!', '-', '-'] rest')⟩
  · rename_i rest'
    obtain ⟨⟨s, after⟩, around, same⟩ := Option.map_eq_some_iff.mp taken
    obtain ⟨rfl, rfl⟩ := Prod.mk.inj same
    obtain ⟨inside, ends⟩ := parts_of_splitAround? around
    have opened : rest' <:+ '!' :: '[' :: 'C' :: 'D' :: 'A' :: 'T' :: 'A' :: '[' :: rest' :=
      List.suffix_append ['!', '[', 'C', 'D', 'A', 'T', 'A', '['] rest'
    refine ⟨fun c member => ?_, ends.trans opened⟩
    rw [String.toList_ofList] at member
    exact legible.suffix opened c (inside member)
  · rename_i rest'
    obtain ⟨⟨target, data, after⟩, isInstruction, same⟩ := Option.map_eq_some_iff.mp taken
    obtain ⟨rfl, rfl⟩ := Prod.mk.inj same
    exact ⟨trivial, (suffix_of_takeInstruction? isInstruction).trans (List.suffix_cons '?' rest')⟩
  · rename_i rest'
    obtain ⟨⟨name, named⟩, isName, taken⟩ := Option.bind_eq_some_iff.mp taken
    simp only at taken
    split at taken
    · rename_i after skipped
      obtain ⟨rfl, rfl⟩ := Prod.mk.inj (Option.some.inj taken)
      exact ⟨trivial, (suffix_of_skipBlanks skipped).trans
        ((suffix_of_takeName? isName).trans (List.suffix_cons '/' rest'))⟩
    · cases taken
  · obtain ⟨⟨name, named⟩, isName, taken⟩ := Option.bind_eq_some_iff.mp taken
    obtain ⟨⟨attributes, closed, after⟩, isTag, taken⟩ := Option.bind_eq_some_iff.mp taken
    obtain ⟨rfl, rfl⟩ := Prod.mk.inj (Option.some.inj taken)
    have ends := suffix_of_takeName? isName
    obtain ⟨attributesFit, restEnds⟩ := legible_of_takeAttributes? (legible.suffix ends) isTag
    exact ⟨attributesFit, restEnds.trans ends⟩

theorem legible_of_takeCharacters? {cs rest : List Char} (legible : Legible cs) {token : Token}
    (taken : takeCharacters? cs = some (token, rest)) : token.IsLegible ∧ rest <:+ cs := by
  unfold takeCharacters? at taken
  simp only at taken
  split at taken
  · cases taken
  · obtain ⟨pieces, isPieces, same⟩ := Option.map_eq_some_iff.mp taken
    obtain ⟨rfl, rfl⟩ := Prod.mk.inj same
    exact ⟨legible_of_pieces? (fun c member => legible c (List.takeWhile_subset _ member)) isPieces,
      List.drop_suffix _ cs⟩

theorem legible_of_tokensFrom? {fuel : Nat} {read : List Token} {cs : List Char}
    (legible : Legible cs) (before : ∀ token ∈ read, token.IsLegible) {tokens : List Token}
    (given : tokensFrom? fuel read cs = some tokens) : ∀ token ∈ tokens, token.IsLegible := by
  induction fuel generalizing read cs with
  | zero =>
    cases cs with
    | nil =>
      obtain rfl := Option.some.inj given
      simpa using before
    | cons c cs => cases given
  | succ fuel ih =>
    cases cs with
    | nil =>
      obtain rfl := Option.some.inj given
      simpa using before
    | cons c cs =>
      rw [tokensFrom?] at given
      split at given
      · rename_i token rest taken
        have both : token.IsLegible ∧ rest <:+ c :: cs := by
          split at taken
          · obtain ⟨fit, ends⟩ :=
              legible_of_takeMarkup? (legible.suffix (List.suffix_cons c cs)) taken
            exact ⟨fit, ends.trans (List.suffix_cons c cs)⟩
          · exact legible_of_takeCharacters? legible taken
        exact ih (legible.suffix both.2) (List.forall_mem_cons.mpr ⟨both.1, before⟩) given
      · cases given

/-! ### Trees -/

mutual
def Raw.IsLegible : Raw → Prop
  | .element _ attributes children => LegibleValues attributes ∧ Raw.AllLegible children
  | .characters pieces => ∀ piece ∈ pieces, piece.IsLegible
  | .cdata s => Legible s.toList
  | _ => True

def Raw.AllLegible : List Raw → Prop
  | [] => True
  | raw :: raws => raw.IsLegible ∧ Raw.AllLegible raws
end

theorem Raw.allLegible_iff {raws : List Raw} :
    Raw.AllLegible raws ↔ ∀ raw ∈ raws, raw.IsLegible := by
  induction raws with
  | nil => simp [Raw.AllLegible]
  | cons raw raws ih => rw [Raw.AllLegible, ih, List.forall_mem_cons]

/-- What is open while trees are built: the tags and siblings read so far are legible. -/
def Frame.IsLegible (frame : Frame) : Prop :=
  LegibleValues frame.attributes ∧ ∀ raw ∈ frame.before, raw.IsLegible

theorem legible_of_assemble? {frames : List Frame} {siblings : List Raw} {tokens : List Token}
    (framesFit : ∀ frame ∈ frames, frame.IsLegible) (siblingsFit : ∀ raw ∈ siblings, raw.IsLegible)
    (tokensFit : ∀ token ∈ tokens, token.IsLegible) {raws : List Raw}
    (given : assemble? frames siblings tokens = some raws) : ∀ raw ∈ raws, raw.IsLegible := by
  induction tokens generalizing frames siblings with
  | nil =>
    cases frames with
    | nil =>
      obtain rfl := Option.some.inj given
      simpa using siblingsFit
    | cons frame frames => cases given
  | cons token tokens ih =>
    obtain ⟨tokenFit, restFit⟩ := List.forall_mem_cons.mp tokensFit
    have pushed (raw : Raw) (fit : raw.IsLegible) : ∀ r ∈ raw :: siblings, r.IsLegible :=
      List.forall_mem_cons.mpr ⟨fit, siblingsFit⟩
    cases token with
    | characters pieces =>
      rw [assemble?] at given
      exact ih framesFit (pushed (.characters pieces) tokenFit) restFit given
    | cdata s =>
      rw [assemble?] at given
      exact ih framesFit (pushed (.cdata s) tokenFit) restFit given
    | comment s =>
      rw [assemble?] at given
      exact ih framesFit (pushed (.comment s) trivial) restFit given
    | instruction target data =>
      rw [assemble?] at given
      exact ih framesFit (pushed (.instruction target data) trivial) restFit given
    | opening name attributes closed =>
      cases closed with
      | true =>
        rw [assemble?] at given
        exact ih framesFit (pushed (.element name attributes []) ⟨tokenFit, trivial⟩) restFit given
      | false =>
        rw [assemble?] at given
        have frameFit : Frame.IsLegible ⟨name, attributes, siblings⟩ := ⟨tokenFit, siblingsFit⟩
        exact ih (List.forall_mem_cons.mpr ⟨frameFit, framesFit⟩) (by simp) restFit given
    | closing name =>
      cases frames with
      | nil => cases given
      | cons frame frames =>
        obtain ⟨⟨attributesFit, beforeFit⟩, outerFit⟩ := List.forall_mem_cons.mp framesFit
        rw [assemble?] at given
        split at given
        · have elementFit :
              (Raw.element name frame.attributes siblings.reverse).IsLegible := by
            refine ⟨attributesFit, Raw.allLegible_iff.mpr fun raw member => ?_⟩
            exact siblingsFit raw (List.mem_reverse.mp member)
          exact ih outerFit (List.forall_mem_cons.mpr ⟨elementFit, beforeFit⟩) restFit given
        · cases given

theorem legible_of_content? {cs : List Char} (legible : Legible cs) {raws : List Raw}
    (given : content? cs = some raws) : ∀ raw ∈ raws, raw.IsLegible := by
  obtain ⟨tokens, isTokens, built⟩ := Option.bind_eq_some_iff.mp given
  exact legible_of_assemble? (by simp) (by simp) (legible_of_tokensFrom? legible (by simp) isTokens)
    built

theorem legible_of_root? {content : List Raw} (legible : ∀ raw ∈ content, raw.IsLegible) {raw : Raw}
    (given : Raw.root? content = some raw) : raw.IsLegible := by
  unfold Raw.root? at given
  split at given
  · rename_i name attributes children only
    obtain rfl := Option.some.inj given
    have member : Raw.element name attributes children ∈ content.filter (!·.isMisc) := by
      rw [only]
      exact List.mem_singleton.mpr rfl
    exact legible _ (List.mem_filter.mp member).1
  · cases given

end XmlRecords.Xml
