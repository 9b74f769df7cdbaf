import XmlLayout.Proofs.Reading.Steps

/-!
# The character data of a document

All text inside the root of a document, in its order, whether it stands in front of the children of
its element, between them or behind them, in literal sections, as references or in the text of
entities. It is told token by token, with no tree (`Survey`): for each open element it is known
whether it has had a child yet.

The text of an element in a tree that is read is what stands in front of its first child, so this is
the part of the character data that the tree holds.

* `Tracks.step`: what one token adds to the one and to the other.
* `Tracks.feed`: so it is for a whole text, with the entities in it.
* `front_characterData`: the texts of a tree that was read.
-/

namespace XmlLayout.Reading

/-! ## Surveys -/

/-- A character inside the root. -/
structure Placed where
  char : Char
  /-- Whether it is behind a child of the element that it stands in. -/
  isBehind : Bool

/-- The characters in front of the first child of their element. -/
def front (data : List Placed) : List Char :=
  (data.filter fun c => !c.isBehind).map Placed.char

theorem front_append (s t : List Placed) : front (s ++ t) = front s ++ front t := by
  simp [front]

theorem front_map (text : List Char) (isBehind : Bool) :
    front (text.map (⟨·, isBehind⟩)) = if isBehind then [] else text := by
  cases isBehind with
  | true => simp [front]
  | false => simp [front, List.filter_map, Function.comp_def]

/-- What has been passed of a document, as far as its character data goes. -/
structure Survey where
  /-- Whether an open element has had a child, for all that are open, the innermost first. -/
  nested : List Bool
  data : List Placed

namespace Survey

/-- In front of the root nothing is open. -/
def start : Survey :=
  ⟨[], []⟩

/-- Adds text to the innermost open element. Outside the root there is no character data. -/
def addText (s : Survey) (text : List Char) : Survey :=
  match s.nested with
  | [] => s
  | isBehind :: _ => { s with data := s.data ++ text.map (⟨·, isBehind⟩) }

def openElement (s : Survey) : Survey :=
  { s with nested := false :: s.nested }

/-- Closes the innermost open element, which is a child of the next one. -/
def closeElement (s : Survey) : Survey :=
  { s with nested := s.nested.tail.modifyHead fun _ => true }

/-- Adds a piece of text. The text of an entity is surveyed by `enter`. -/
def addPiece (d : Definitions) (enter : Survey → List Char → Survey) (s : Survey) : Piece → Survey
  | .plain c => s.addText [c]
  | .numbered c => s.addText [c]
  | .entity name => match d.meaning name with
    | .character c => s.addText [c]
    | .text t => enter s t
    | _ => s

def addRun (d : Definitions) (enter : Survey → List Char → Survey) (src : Source) (s : Survey)
    (run : List Char) : Survey :=
  if s.nested = [] then s
  else ((pieces? src run).getD []).foldl (fun s piece => s.addPiece d enter piece.1) s

/-- Takes a token into account. -/
def step (d : Definitions) (enter : Survey → List Char → Survey) (src : Source) (s : Survey) :
    Token → Survey
  | .text run => s.addRun d enter src run
  | .literal run => s.addText (src.settled run)
  | .opening _ _ complete => if complete then s.openElement.closeElement else s.openElement
  | .closing _ => s.closeElement
  | .remark => s

/-- Surveys a text to its end, or until it is no longer well formed. -/
def feedWith (src : Source) (step : Survey → Token → Survey) (s : Survey) : List Char → Survey
  | [] => s
  | c :: text =>
    if c = '<' then
      match _h : scanMarkup src text with
      | none => s
      | some (token, rest) => (step s token).feedWith src step rest
    else (step s (.text (c :: text.takeWhile (· ≠ '<')))).feedWith src step
      (text.dropWhile (· ≠ '<'))
termination_by text => text.length
decreasing_by
  · have := scanMarkup_length _h
    simp only [List.length_cons]
    omega
  · have := length_dropWhile_le (fun c => decide (c ≠ '<')) text
    simp only [List.length_cons]
    omega

/-- Surveys the text of an entity with `feed`, within the innermost open element. -/
def enter (feed : Survey → List Char → Survey) (s : Survey) (text : List Char) : Survey :=
  let inner := feed ⟨s.nested.take 1, []⟩ text
  ⟨inner.nested ++ s.nested.drop 1, s.data ++ inner.data⟩

/-- Surveys a text to its end, with entities nested at most `depth` deep. -/
def feed (d : Definitions) : Nat → Source → Survey → List Char → Survey
  | 0, src => feedWith src (step d (fun s _ => s) src)
  | depth + 1, src => feedWith src (step d (enter (feed d depth .entity)) src)

end Survey

/-- The character data of a document of which all characters may be there. -/
def characterDataOfText (src : Source) (text : List Char) : List Placed :=
  match afterDeclaration? src (withoutMark text) with
  | none => []
  | some (standsAlone, content) =>
    match scanProlog src (src.textSize text - src.textSize content) none content with
    | none => []
    | some (doctype, rest) => match Definitions.ofDoctype? src standsAlone doctype with
      | none => []
      | some (d, _) => (Survey.feed d d.entities.length src .start rest).data

/-- The character data of a well-formed document, in its order. -/
def characterData (document : String) : List Placed :=
  match decoded? document.toList with
  | none => []
  | some (src, text) => characterDataOfText src text

/-! ## Texts of trees -/

mutual

/-- All texts of a tree, in the order of the document. -/
def Tree.texts : Tree → List Char
  | .element tag children => (tag.text.getD "").toList ++ textsAll children

def Tree.textsAll : List Tree → List Char
  | [] => []
  | tree :: rest => tree.texts ++ textsAll rest

end

theorem Tree.textsAll_append (xs ys : List Tree) :
    textsAll (xs ++ ys) = textsAll xs ++ textsAll ys := by
  induction xs with
  | nil => rfl
  | cons tree rest ih => simp only [List.cons_append, textsAll, ih, List.append_assoc]

namespace Frame

/-- The texts of an open element so far. -/
def kept (f : Frame) : List Char :=
  f.text.reverse ++ Tree.textsAll f.children.reverse

/-- Whether an open element has had a child. -/
def isParent (f : Frame) : Bool :=
  !f.children.isEmpty

theorem nil_of_open? {scope : Scope} {name : QualifiedName}
    {attributes : List (QualifiedName × List Char)} {f : Frame}
    (h : Frame.open? scope name attributes = some f) : f.text = [] ∧ f.children = [] := by
  unfold Frame.open? at h
  split at h
  · cases h
  · split at h
    · cases h
      exact ⟨rfl, rfl⟩
    · cases h

theorem texts_close (f : Frame) : f.close.texts = f.kept := by
  have hText : ((if f.text = [] then none
      else some (String.ofList f.text.reverse) : Option String).getD "").toList = f.text.reverse := by
    split
    · rename_i hNil
      rw [hNil]
      rfl
    · exact String.toList_ofList
  rw [close, Tree.texts, kept, hText]

theorem kept_addText (f : Frame) (text : List Char) :
    (f.addText text).kept = f.kept ++ if f.isParent then [] else text := by
  unfold addText isParent kept
  by_cases hNil : f.children = []
  · simp [hNil, List.reverseAux_eq, Tree.textsAll]
  · simp [hNil]

theorem isParent_addText (f : Frame) (text : List Char) : (f.addText text).isParent = f.isParent := by
  unfold addText isParent
  split <;> rfl

theorem kept_addTree (f : Frame) (tree : Tree) :
    Frame.kept { f with children := tree :: f.children } = f.kept ++ tree.texts := by
  simp [kept, Tree.textsAll_append, Tree.textsAll]

end Frame

namespace Progress

/-- The texts of the open elements so far, which are in one another. -/
def keptAll : List Frame → List Char
  | [] => []
  | f :: outer => keptAll outer ++ f.kept

/-- The texts so far. -/
def kept (p : Progress) : List Char :=
  p.root.elim [] Tree.texts ++ keptAll p.frames

end Progress

/-! ## Reading along -/

/-- A survey that has come as far as reading: it knows of the same open elements, and what is read
since `base` is what it has in front of first children. -/
structure Tracks (base : List Char) (s : Survey) (p : Progress) : Prop where
  nested : s.nested = p.frames.map Frame.isParent
  kept : p.kept = base ++ front s.data

namespace Tracks

variable {base : List Char} {s : Survey} {p q : Progress}

/-- How many bytes were read does not matter. -/
theorem counted (h : Tracks base s p) (usage : Usage) :
    Tracks base s { p with usage := usage } where
  nested := h.nested
  kept := h.kept

theorem addText (h : Tracks base s p) {text : List Char} (hAdd : p.addText text = some q) :
    Tracks base (s.addText text) q := by
  unfold Progress.addText at hAdd
  split at hAdd
  · cases hAdd
  · rename_i f outer hFrames
    cases hAdd
    have hNested : s.nested = f.isParent :: outer.map Frame.isParent := by
      rw [h.nested, hFrames, List.map_cons]
    have hKept := h.kept
    rw [Progress.kept, hFrames, Progress.keptAll] at hKept
    unfold Survey.addText
    rw [hNested]
    refine ⟨?_, ?_⟩
    · simp [Frame.isParent_addText]
    · rw [Progress.kept, Progress.keptAll, Frame.kept_addText, front_append, front_map,
        ← List.append_assoc base, ← hKept]
      simp only [List.append_assoc]

/-- Closing an element makes it a child of the next one, or the root. -/
theorem addTree {f : Frame} (h : Tracks base s { p with frames := f :: p.frames })
    (hAdd : p.addTree f.close = some q) : Tracks base s.closeElement q := by
  have hNested : s.nested = f.isParent :: p.frames.map Frame.isParent := h.nested
  have hKept : p.root.elim [] Tree.texts ++ (Progress.keptAll p.frames ++ f.kept) =
      base ++ front s.data := h.kept
  unfold Progress.addTree at hAdd
  split at hAdd
  · rename_i g outer hFrames
    cases hAdd
    refine ⟨?_, ?_⟩
    · simp [Survey.closeElement, hNested, hFrames, Frame.isParent]
    · rw [hFrames, Progress.keptAll] at hKept
      rw [Progress.kept, Progress.keptAll, Frame.kept_addTree, Frame.texts_close,
        ← List.append_assoc (Progress.keptAll outer), hKept]
      rfl
  · rename_i hFrames hRoot
    cases hAdd
    refine ⟨?_, ?_⟩
    · simp [Survey.closeElement, hNested, hFrames]
    · rw [hFrames, hRoot] at hKept
      rw [Progress.kept, hFrames, Option.elim_some, Frame.texts_close, Progress.keptAll,
        List.append_nil]
      exact hKept
  · cases hAdd

theorem openElement (h : Tracks base s p) {f : Frame} (hText : f.text = [])
    (hChildren : f.children = []) :
    Tracks base s.openElement { p with frames := f :: p.frames } where
  nested := by simp [Survey.openElement, h.nested, Frame.isParent, hChildren]
  kept := by
    have hNone : f.kept = [] := by simp [Frame.kept, hText, hChildren, Tree.textsAll]
    rw [Progress.kept, Progress.keptAll, hNone, List.append_nil]
    exact h.kept

/-- The text of an entity is surveyed as it is read: within the innermost open element. -/
theorem enter {feed : Progress → List Char → Option Progress} {survey : Survey → List Char → Survey}
    (hFeed : ∀ (base : List Char) (s : Survey) (p q : Progress) (text : List Char),
      Tracks base s p → feed p text = some q → Tracks base (survey s text) q)
    (h : Tracks base s p) {text : List Char} (hEnter : p.enter feed text = some q) :
    Tracks base (s.enter survey text) q := by
  obtain ⟨f, g, outer, usage, hFrames, hInner, rfl⟩ := Progress.exists_of_enter hEnter
  have hNested : s.nested = f.isParent :: outer.map Frame.isParent := by
    rw [h.nested, hFrames, List.map_cons]
  have hKept := h.kept
  rw [Progress.kept, hFrames, Progress.keptAll] at hKept
  have hStart : Tracks f.kept ⟨s.nested.take 1, []⟩ ⟨[f], none, p.usage⟩ :=
    ⟨by rw [hNested]; rfl, (List.append_nil _).symm⟩
  have hEnd := hFeed _ _ _ _ _ hStart hInner
  have hInnerKept : g.kept = f.kept ++ front (survey ⟨s.nested.take 1, []⟩ text).data := hEnd.kept
  have hInnerNested : (survey ⟨s.nested.take 1, []⟩ text).nested = [g.isParent] := hEnd.nested
  refine ⟨?_, ?_⟩
  · simp only [Survey.enter, hInnerNested, List.map_cons]
    rw [hNested]
    rfl
  · rw [Progress.kept, Progress.keptAll, hInnerKept, Survey.enter, front_append,
      ← List.append_assoc base, ← hKept]
    simp only [List.append_assoc]

section Steps

variable {d : Definitions} {depth : Nat} {src : Source}
  {enter : Progress → List Char → Option Progress} {surveyInner : Survey → List Char → Survey}
  (hEnter : ∀ (base : List Char) (s : Survey) (p q : Progress) (text : List Char),
    Tracks base s p → enter p text = some q → Tracks base (surveyInner s text) q)
include hEnter

theorem addPiece (h : Tracks base s p) {account : Account} {piece : Piece} {n : Nat}
    (hAdd : p.addPiece d enter account (piece, n) = some q) :
    Tracks base (s.addPiece d surveyInner piece) q := by
  obtain ⟨c, usage, hText, hPiece⟩ | ⟨name, text, usage, hInner, rfl, hMeaning⟩ :=
    Progress.exists_of_addPiece hAdd
  · have hSurvey : s.addPiece d surveyInner piece = s.addText [c] := by
      rcases hPiece with rfl | rfl | ⟨name, rfl, hMeaning⟩
      · rfl
      · rfl
      · simp only [Survey.addPiece, hMeaning]
    rw [hSurvey]
    exact (h.counted usage).addText hText
  · have hSurvey : s.addPiece d surveyInner (.entity name) = surveyInner s text := by
      simp only [Survey.addPiece, hMeaning]
    rw [hSurvey]
    exact hEnter _ _ _ _ _ (h.counted usage) hInner

theorem addPieces (h : Tracks base s p) {account : Account} {pieces : List (Piece × Nat)}
    (hAdd : pieces.foldlM (Progress.addPiece d enter account) p = some q) :
    Tracks base (pieces.foldl (fun s piece => s.addPiece d surveyInner piece.1) s) q := by
  induction pieces generalizing s p with
  | nil =>
    cases hAdd
    exact h
  | cons piece rest ih =>
    rw [List.foldlM_cons] at hAdd
    obtain ⟨r, hFirst, hRest⟩ := Option.bind_eq_some_iff.mp hAdd
    exact ih (addPiece hEnter h hFirst) hRest

theorem addRun (h : Tracks base s p) {run : List Char}
    (hAdd : p.addRun d enter src run = some q) :
    Tracks base (s.addRun d surveyInner src run) q := by
  have hOutside : s.nested = [] ↔ p.frames = [] := by rw [h.nested, List.map_eq_nil_iff]
  unfold Survey.addRun
  obtain ⟨hNil, usage, rfl⟩ | ⟨hSome, pieces, r, usage, hPieces, hFold, rfl⟩ :=
    Progress.exists_of_addRun hAdd
  · rw [if_pos (hOutside.mpr hNil)]
    exact h.counted usage
  · rw [if_neg (mt hOutside.mp hSome), hPieces]
    exact (addPieces hEnter h hFold).counted usage

omit hEnter in
theorem addLiteral (h : Tracks base s p) {run : List Char} (hAdd : p.addLiteral src run = some q) :
    Tracks base (s.addText (src.settled run)) q := by
  obtain ⟨usage, hText⟩ := Progress.exists_of_addLiteral hAdd
  exact (h.counted usage).addText hText

omit hEnter in
theorem openInner (h : Tracks base s p) {name : QualifiedName}
    {written : List (QualifiedName × List Char)} {complete : Bool}
    (hOpen : p.openInner d depth src name written complete = some q) :
    Tracks base (if complete then s.openElement.closeElement else s.openElement) q := by
  obtain ⟨attributes, f, usage, hFrame, hEnd⟩ := Progress.exists_of_openInner hOpen
  obtain ⟨hText, hChildren⟩ := Frame.nil_of_open? hFrame
  have hOpened := (h.counted usage).openElement hText hChildren
  cases complete with
  | false =>
    cases hEnd
    exact hOpened
  | true => exact hOpened.addTree (p := { p with usage := usage }) hEnd

omit hEnter in
theorem closeInner (h : Tracks base s p) {name : QualifiedName}
    (hClose : p.closeInner name = some q) : Tracks base s.closeElement q := by
  obtain ⟨f, outer, hFrames, hAdd⟩ := Progress.exists_of_closeInner hClose
  refine addTree (p := { p with frames := outer }) ?_ hAdd
  rw [← hFrames]
  exact h

/-- What one token adds to what is read, the survey adds in front of first children. -/
theorem step (h : Tracks base s p) {token : Token}
    (hStep : p.step d depth enter src token = some q) :
    Tracks base (s.step d surveyInner src token) q := by
  cases token with
  | text run => exact addRun hEnter h hStep
  | literal run => exact addLiteral h hStep
  | opening name written complete => exact openInner h hStep
  | closing name => exact closeInner h hStep
  | remark =>
    cases hStep
    exact h

/-- So it is for a whole text, token by token. -/
theorem feedWith (h : Tracks base s p) {text : List Char}
    (hFeed : p.feedWith src (Progress.step d depth enter src) text = some q) :
    Tracks base (s.feedWith src (Survey.step d surveyInner src) text) q := by
  fun_induction Progress.feedWith src (Progress.step d depth enter src) p text generalizing s with
  | case1 p =>
    cases hFeed
    rw [Survey.feedWith]
    exact h
  | case2 p text hScan => cases hFeed
  | case3 p text token rest hScan hNone => cases hFeed
  | case4 p text token rest hScan r hStep ih =>
    obtain ⟨counted, hCharge, hToken⟩ := Option.bind_eq_some_iff.mp hStep
    obtain ⟨usage, rfl⟩ := Progress.exists_of_charge hCharge
    rw [Survey.feedWith, if_pos rfl, hScan]
    exact ih (step hEnter (h.counted usage) hToken) hFeed
  | case5 p c text hRun hNone => cases hFeed
  | case6 p c text hRun r hStep ih =>
    rw [Survey.feedWith, if_neg hRun]
    exact ih (step hEnter h hStep) hFeed

end Steps

/-- Entities are nested: by induction on how deep they may be. -/
theorem feed (d : Definitions) (depth : Nat) (src : Source) (h : Tracks base s p)
    {text : List Char} (hFeed : p.feed d depth src text = some q) :
    Tracks base (s.feed d depth src text) q := by
  induction depth generalizing src base s p q text with
  | zero =>
    have hFlat : p.feedWith src (Progress.step d 0 (fun _ _ => none) src) text = some q := hFeed
    refine feedWith ?_ h hFlat
    intro base s p q text _ hNone
    cases hNone
  | succ depth ih =>
    refine feedWith ?_ h hFeed
    intro base s p q text hOuter hEnter
    refine hOuter.enter ?_ hEnter
    intro base s p q text hInner hText
    exact ih .entity hInner hText

end Tracks

/-! ## Whole documents -/

theorem start_tracks (usage : Usage) : Tracks [] .start (.start usage) :=
  ⟨rfl, rfl⟩

theorem front_characterDataOfText {src : Source} {text : List Char} {tree : Tree}
    (h : readText src text = some tree) : front (characterDataOfText src text) = tree.texts := by
  obtain ⟨standsAlone, content, doctype, rest, d, before, start, last, hContent, hProlog,
    hDefinitions, hFeed⟩ := exists_of_readText h
  have hKept := ((start_tracks start).feed d d.entities.length src hFeed).kept
  rw [Progress.kept, Option.elim_some, Progress.keptAll, List.append_nil, List.nil_append] at hKept
  rw [characterDataOfText, hContent]
  simp only [hProlog, hDefinitions]
  exact hKept.symm

/-- The texts of a tree that was read are the character data of the document, without what stands
behind a child. -/
theorem front_characterData {document : String} {tree : Tree} (h : read document = .ok tree) :
    front (characterData document) = tree.texts := by
  obtain ⟨src, text, hDecoded, hText⟩ := exists_of_read h
  rw [characterData, hDecoded]
  exact front_characterDataOfText hText

/-- A child that stands in the text of an entity is a child of the element around the reference. -/
example : (characterData
      "<!DOCTYPE a [<!ENTITY e 'x<b/>y'>]><a>&e;&#65;<!-- - --><![CDATA[&]]></a>\n").map
        (fun c => (c.char, c.isBehind)) =
    [('x', false), ('y', true), ('A', true), ('&', true)] := by
  decide +kernel

end XmlLayout.Reading
