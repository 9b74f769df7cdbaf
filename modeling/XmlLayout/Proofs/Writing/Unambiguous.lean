import XmlLayout.Proofs.Reading.Rendered
import XmlLayout.Proofs.Writing.Rendered

/-!
# No two trees have the same text

A text that was written delimits itself, whatever characters its values and texts are made of: no
escaped text holds an angle bracket, a value ends at the quote it begins with, and what is in front of
the next bracket is an indent or all of a text. So it can be told from the text alone which tree it was
written for, as far as the tree is written at all, and at whatever step.

* `eq_of_spells`: two spellings of characters that come out the same spell the same text.
* `tag_append_inj`: a tag is determined by its characters, and where it ends.
* `related_of_render`: so is a tree by its rendering.
* `agree_of_encodeToText`: trees with the same text agree.
-/

namespace XmlLayout

open Document (Tag Attributes Node isFirst isLegalName)

namespace Reading

open Writing

/-! ## Spelled texts -/

/-- The character that a piece stands for, where nothing is declared. -/
def Piece.character? : Piece → Option Char
  | .plain c => some c
  | .numbered c => some c
  | .entity name => predefined? name

theorem Gives.character?_eq {plain : Char → Prop} {piece : Piece × Nat} {c : Char}
    (h : Gives plain piece c) : piece.1.character? = some c := by
  obtain ⟨-, ⟨hPiece, -⟩ | hPiece | ⟨name, hPiece, hName⟩⟩ := h
  · rw [hPiece, Piece.character?]
  · rw [hPiece, Piece.character?]
  · rw [hPiece, Piece.character?, hName]

theorem forall₂_gives_unique {plain plain' : Char → Prop} {pieces : List (Piece × Nat)}
    {s t : List Char} (hs : List.Forall₂ (Gives plain) pieces s)
    (ht : List.Forall₂ (Gives plain') pieces t) : s = t := by
  induction hs generalizing t with
  | nil =>
    cases ht
    rfl
  | cons hc _ ih =>
    cases ht with
    | cons hd hRest =>
      have hSame := hc.character?_eq.symm.trans hd.character?_eq
      rw [Option.some.inj hSame, ih hRest]

/-- Characters that spell a text spell no other one, in whatever way that is spelled. -/
theorem eq_of_spells {src : Source} {plain : Char → Prop} {f g : Char → List Char}
    {s t : List Char} (hs : ∀ c, Spells src plain (f c) c) (ht : ∀ c, Spells src plain (g c) c)
    (h : s.flatMap f = t.flatMap g) : s = t := by
  let chars : List (Char × Nat) := (s.flatMap f).map fun c => (c, 1)
  have hChars : chars.map Prod.fst = s.flatMap f := by
    rw [List.map_map]
    exact List.map_id _
  have hSize : ∀ d ∈ chars, 1 ≤ d.2 := by
    intro d hd
    obtain ⟨c, -, rfl⟩ := List.mem_map.mp hd
    exact Nat.le_refl 1
  obtain ⟨pieces, hPieces, hGives⟩ := exists_pieces_of_spells (fun c _ => hs c) hChars hSize
  obtain ⟨others, hOthers, hGivesOther⟩ :=
    exists_pieces_of_spells (fun c _ => ht c) (hChars.trans h) hSize
  rw [hPieces] at hOthers
  obtain rfl := Option.some.inj hOthers
  exact forall₂_gives_unique hGives hGivesOther

theorem escape_injective {s t : List Char} (h : escape s = escape t) : s = t := by
  have hSpells (c : Char) : Spells .narrow (fun _ => True) (escapeChar c) c :=
    spells_escapeChar trivial
  exact eq_of_spells hSpells hSpells h

/-- A value is determined by what is between its quotes, although that depends on the quotes. -/
theorem rawValue_injective {s t : List Char} (h : rawValue s = rawValue t) : s = t :=
  eq_of_spells (spells_spelling s) (spells_spelling t) h

theorem rawEntries_injective {xs ys : List (String × String)} (h : rawEntries xs = rawEntries ys) :
    xs = ys := by
  refine List.map_injective_iff.mpr ?_ h
  intro e f hEntry
  obtain ⟨hName, hValue⟩ := Prod.mk.inj hEntry
  have hKey : e.1 = f.1 := String.toList_inj.mp (QualifiedName.mk.inj hName).2
  have hText : e.2 = f.2 := String.toList_inj.mp (rawValue_injective hValue)
  exact Prod.ext hKey hText

theorem IsLayout.not_mem {text : List Char} (h : IsLayout text) : '<' ∉ text := by
  intro hMem
  rcases h _ hMem with hEq | hEq
  · exact absurd hEq (by decide)
  · exact absurd hEq (by decide)

end Reading

namespace Writing

open Reading

/-! ## Tags and what is between them -/

/-- A tag is determined by its characters, and where it ends. -/
theorem tag_append_inj {s t : Tag} (hs : LegalTag s) (ht : LegalTag t) {complete complete' : Bool}
    {r r' : List Char}
    (h : tagChars s ++ (tagEnd complete ++ r) = tagChars t ++ (tagEnd complete' ++ r')) :
    s.name = t.name ∧ s.attributes = t.attributes ∧ complete = complete' ∧ r = r' := by
  have hScan := scanOpening_tagChars hs complete r
  rw [h, scanOpening_tagChars ht] at hScan
  obtain ⟨hOpening, hRest⟩ := Prod.mk.inj (Option.some.inj hScan)
  injection hOpening with hName hEntries hComplete
  have hText : t.name.toList = s.name.toList := (QualifiedName.mk.inj hName).2
  exact ⟨(String.toList_inj.mp hText).symm, Attributes.ext (rawEntries_injective hEntries).symm,
    hComplete.symm, hRest.symm⟩

/-- What is in front of the first angle bracket is determined. -/
theorem bracket_append_inj {p q r r' : List Char} (hp : '<' ∉ p) (hq : '<' ∉ q)
    (h : p ++ '<' :: r = q ++ '<' :: r') : p = q ∧ r = r' := by
  have hFront {s rest : List Char} (hs : '<' ∉ s) :
      (s ++ '<' :: rest).takeWhile (fun c => decide (c ≠ '<')) = s := by
    have hAll : ∀ c ∈ s, decide (c ≠ '<') = true := by
      intro c hc
      rw [decide_eq_true_eq]
      rintro rfl
      exact hs hc
    rw [List.takeWhile_append_of_pos hAll]
    simp
  have hEq : p = q := by
    rw [← hFront hp, h, hFront hq]
  subst hEq
  exact ⟨rfl, (List.cons.inj (List.append_cancel_left h)).2⟩

/-! ## Trees that agree -/

/-- Two elements that agree in all that is written of them: beside children no text and an empty text
are the same. -/
def WrittenAlike (s : Tag) (xs : List Node) (t : Tag) (_ : List Node) : Prop :=
  s.name = t.name ∧ s.attributes = t.attributes ∧
    if xs = [] then s.text = t.text else s.text.getD "" = "" ∧ t.text.getD "" = ""

/-- Two trees of one shape that agree in all that is written of them. -/
def Agree (a b : Node) : Prop :=
  a.Related WrittenAlike b

/-- Whether an element is written as a single tag. -/
def isSingle (tag : Tag) (children : List Node) : Bool :=
  children.isEmpty && tag.text.isNone

/-- What stands in front of the closing tag of an element: its text, or the indent behind its
children. -/
def lastChars (step : Int) (depth : Nat) (tag : Tag) (children : List Node) : List Char :=
  if children.isEmpty then escape (tag.text.getD "").toList else (closingIndent step depth).toList

theorem not_mem_lastChars (step : Int) (depth : Nat) (tag : Tag) (children : List Node) :
    '<' ∉ lastChars step depth tag children := by
  unfold lastChars
  split
  · exact (not_mem_escape _).1
  · exact (isLayout_closingIndent step depth).not_mem

theorem bodyChars_append (step : Int) (depth : Nat) {tag : Tag} {children : List Node}
    (h : Legible tag children) (rest : List Char) :
    bodyChars step depth tag children ++ rest =
      '<' :: (tagChars tag ++ (tagEnd (isSingle tag children) ++
        if isSingle tag children then rest
        else (renderAll step (depth + 1) children).toList ++ (lastChars step depth tag children ++
          '<' :: '/' :: (tag.name.toList ++ '>' :: rest)))) := by
  have hText : escape (tag.text.getD "").toList ++ ((renderAll step (depth + 1) children).toList ++
      ((if children.isEmpty then [] else (closingIndent step depth).toList) ++
        closingChars tag.name)) =
      (renderAll step (depth + 1) children).toList ++
        (lastChars step depth tag children ++ closingChars tag.name) := by
    unfold lastChars
    cases children with
    | nil => rfl
    | cons child others =>
      rw [h.text (List.cons_ne_nil _ _)]
      rfl
  rw [bodyChars, hText, isSingle]
  cases children.isEmpty && tag.text.isNone with
  | true => simp [tagEnd]
  | false => simp [tagEnd, closingChars]

/-- Behind its indent an element begins with a letter, and a closing tag does not. -/
theorem closing_ne_render {step : Int} {depth : Nat} {node : Node} (h : node.Every Legible)
    {p : List Char} (hp : '<' ∉ p) (r r' : List Char) :
    p ++ '<' :: '/' :: r ≠ (render step depth node).toList ++ r' := by
  intro hEq
  cases node with
  | foreign value => exact h.elim
  | element tag children =>
    rw [Node.Every] at h
    obtain ⟨c, more, hName, hFirst⟩ := exists_cons_of_isLegalName h.1.legal.1
    have hIndent := (isLayout_openingIndent step depth).not_mem
    rw [toList_render, List.append_assoc, bodyChars_append step depth h.1] at hEq
    obtain ⟨-, hBehind⟩ := bracket_append_inj hp hIndent hEq
    rw [tagChars, hName] at hBehind
    exact ne_of_isFirst hFirst (by decide) (List.cons.inj hBehind).1.symm

/-- A closed element says whether it has a text, and which. -/
theorem text_eq_of_not_isSingle {s t : Tag} (hs : isSingle s [] = false)
    (ht : isSingle t [] = false)
    (h : escape (s.text.getD "").toList = escape (t.text.getD "").toList) : s.text = t.text := by
  have hSame := String.toList_inj.mp (escape_injective h)
  unfold isSingle at hs ht
  cases hText : s.text with
  | none => simp [hText] at hs
  | some text =>
    cases hOther : t.text with
    | none => simp [hOther] at ht
    | some other =>
      rw [hText, hOther] at hSame
      exact congrArg some hSame

mutual

/-- A tree is determined by its rendering, as far as it is written, and where it ends. -/
theorem related_of_render {step step' : Int} {depth depth' : Nat} {a b : Node}
    (ha : a.Every Legible) (hb : b.Every Legible) {r r' : List Char}
    (h : (render step depth a).toList ++ r = (render step' depth' b).toList ++ r') :
    a.Related WrittenAlike b ∧ r = r' := by
  cases a with
  | foreign value => exact ha.elim
  | element s xs =>
    cases b with
    | foreign value => exact hb.elim
    | element t ys =>
      rw [Node.Every] at ha hb
      obtain ⟨hs, hxs⟩ := ha
      obtain ⟨ht, hys⟩ := hb
      rw [toList_render, toList_render, List.append_assoc, List.append_assoc,
        bodyChars_append step depth hs, bodyChars_append step' depth' ht] at h
      have hBody := (bracket_append_inj (isLayout_openingIndent step depth).not_mem
        (isLayout_openingIndent step' depth').not_mem h).2
      obtain ⟨hName, hAttributes, hSingle, hInner⟩ := tag_append_inj hs.legal ht.legal hBody
      rw [Node.Related]
      cases hThis : isSingle s xs with
      | true =>
        rw [hThis] at hSingle
        rw [hThis, ← hSingle, if_pos rfl, if_pos rfl] at hInner
        have hParts {tag : Tag} {children : List Node} (hTag : isSingle tag children = true) :
            children = [] ∧ tag.text = none := by
          simpa [isSingle] using hTag
        obtain ⟨rfl, hNone⟩ := hParts hThis
        obtain ⟨rfl, hOther⟩ := hParts hSingle.symm
        refine ⟨⟨⟨hName, hAttributes, ?_⟩, ?_⟩, hInner⟩
        · rw [if_pos rfl, hNone, hOther]
        · rw [Node.RelatedAll]
          trivial
      | false =>
        rw [hThis] at hSingle
        rw [hThis, ← hSingle, if_neg Bool.false_ne_true, if_neg Bool.false_ne_true] at hInner
        obtain ⟨hChildren, hLast, hBehind⟩ := relatedAll_of_renderAll hxs hys
          (not_mem_lastChars step depth s xs) (not_mem_lastChars step' depth' t ys) hInner
        rw [hName] at hBehind
        have hRest := (List.cons.inj (List.append_cancel_left hBehind)).2
        refine ⟨⟨⟨hName, hAttributes, ?_⟩, hChildren⟩, hRest⟩
        by_cases hNil : xs = []
        · have hOther := hChildren.eq_nil_iff.mp hNil
          subst hNil hOther
          rw [if_pos rfl]
          exact text_eq_of_not_isSingle hThis hSingle.symm (hLast rfl)
        · rw [if_neg hNil]
          exact ⟨hs.text hNil, ht.text fun hOther => hNil (hChildren.eq_nil_iff.mpr hOther)⟩

theorem relatedAll_of_renderAll {step step' : Int} {depth depth' : Nat} {xs ys : List Node}
    (hxs : Node.EveryAll Legible xs) (hys : Node.EveryAll Legible ys) {p q r r' : List Char}
    (hp : '<' ∉ p) (hq : '<' ∉ q)
    (h : (renderAll step depth xs).toList ++ (p ++ '<' :: '/' :: r) =
      (renderAll step' depth' ys).toList ++ (q ++ '<' :: '/' :: r')) :
    Node.RelatedAll WrittenAlike xs ys ∧ (xs = [] → p = q) ∧ r = r' := by
  cases xs with
  | nil =>
    cases ys with
    | nil =>
      obtain ⟨hFront, hBehind⟩ := bracket_append_inj hp hq h
      rw [Node.RelatedAll]
      exact ⟨trivial, fun _ => hFront, (List.cons.inj hBehind).2⟩
    | cons y ys =>
      rw [Node.EveryAll] at hys
      rw [renderAll, renderAll, String.toList_append, List.append_assoc] at h
      exact absurd h (closing_ne_render hys.1 hp _ _)
  | cons x xs =>
    cases ys with
    | nil =>
      rw [Node.EveryAll] at hxs
      rw [renderAll, renderAll, String.toList_append, List.append_assoc] at h
      exact absurd h.symm (closing_ne_render hxs.1 hq _ _)
    | cons y ys =>
      rw [Node.EveryAll] at hxs hys
      rw [renderAll, renderAll, String.toList_append, String.toList_append, List.append_assoc,
        List.append_assoc] at h
      obtain ⟨hFirst, hOthers⟩ := related_of_render hxs.1 hys.1 h
      obtain ⟨hRest, -, hBehind⟩ := relatedAll_of_renderAll hxs.2 hys.2 hp hq hOthers
      rw [Node.RelatedAll]
      exact ⟨⟨hFirst, hRest⟩, fun hNil => absurd hNil (List.cons_ne_nil _ _), hBehind⟩

end

/-! ## Texts -/

def HasLegalName (tag : Tag) (_ : List Node) : Prop :=
  isLegalName tag.name = true

instance (tag : Tag) (children : List Node) : Decidable (HasLegalName tag children) :=
  inferInstanceAs (Decidable (_ = _))

theorem legible_of_writable {tag : Tag} {children : List Node} (h : Writable tag children)
    (hName : HasLegalName tag children) : Legible tag children := by
  obtain ⟨hText, hKeys⟩ := writable_iff.mp h
  exact ⟨⟨hName, hKeys⟩, hText⟩

/-- Trees with legal names that have the same text agree, whatever characters their values and texts
are made of, and even if the text was written at another step. -/
theorem agree_of_encodeToText {a b : Node} {step step' : Int} {text : String}
    (ha : encodeToText a step = .ok text) (hb : encodeToText b step' = .ok text)
    (haNames : a.Every HasLegalName) (hbNames : b.Every HasLegalName) : Agree a b := by
  obtain ⟨haWritable, haText⟩ := eq_render_of_encodeToText ha
  obtain ⟨hbWritable, hbText⟩ := eq_render_of_encodeToText hb
  have haLegible : a.Every Legible :=
    (haWritable.and haNames).mono fun _ _ h => legible_of_writable h.1 h.2
  have hbLegible : b.Every Legible :=
    (hbWritable.and hbNames).mono fun _ _ h => legible_of_writable h.1 h.2
  have hSame : (render step 0 a).toList ++ [] = (render step' 0 b).toList ++ [] := by
    rw [← haText, ← hbText]
  exact (related_of_render haLegible hbLegible hSame).1

/-- An element with values and texts that look like markup; its own text may be missing or empty. -/
def riddle (text : Option String) : Node :=
  .element ⟨"riddle", ⟨[("of", "\"'&quot;\x00/>"), ("by", "")], by decide⟩, text⟩
    [.element ⟨"line", .empty, some "</line>\r"⟩ [], .element ⟨"end", .empty, some ""⟩ []]

theorem agree_of_encodeToText_riddle :
    ∃ text, encodeToText (riddle none) 0 = .ok text ∧
      encodeToText (riddle (some "")) (-1) = .ok text ∧
      Agree (riddle none) (riddle (some "")) := by
  have hFirst : encodeToText (riddle none) 0 = .ok (render 0 0 (riddle none)) :=
    encodeToText_of_fits (by decide +kernel) (by decide)
  have hSecond : encodeToText (riddle (some "")) (-1) = .ok (render 0 0 (riddle none)) :=
    encodeToText_of_fits (by decide +kernel) (by decide)
  have hNames : (riddle none).Every HasLegalName := by decide +kernel
  have hOtherNames : (riddle (some "")).Every HasLegalName := by decide +kernel
  exact ⟨_, hFirst, hSecond, agree_of_encodeToText hFirst hSecond hNames hOtherNames⟩

end Writing

end XmlLayout
