import XmlLayout.Reading.Tree

/-!
# What reading can do

A document is read in few ways of changing what has been read: bytes are counted, a character is
added to the innermost open element, an element is opened or closed. Here it is said once, for each
function that reads something, which of these it was when it gave a result.

* `exists_of_addPiece`, `exists_of_addRun`, `exists_of_addLiteral`, `exists_of_openInner`,
  `exists_of_closeInner`, `exists_of_enter`: what was done.
* `Invariant.feed`: what each of these changes keeps holds of all that is read.
* `exists_of_read`, `exists_of_readText`: what was gone through in front of the root of a document.
-/

namespace XmlLayout.Reading

namespace Progress

variable {p q : Progress} {d : Definitions} {depth : Nat} {src : Source}
  {enter : Progress → List Char → Option Progress}

/-! ## Counting -/

theorem exists_of_charge {account : Account} {n : Nat} (h : p.charge account n = some q) :
    ∃ usage, q = { p with usage := usage } := by
  obtain ⟨usage, -, rfl⟩ := Option.map_eq_some_iff.mp h
  exact ⟨usage, rfl⟩

theorem exists_of_pass {account : Account} {isPart : Bool} {n : Nat}
    (h : p.pass account isPart n = some q) : ∃ usage, q = { p with usage := usage } := by
  obtain ⟨usage, -, rfl⟩ := Option.map_eq_some_iff.mp h
  exact ⟨usage, rfl⟩

theorem exists_of_passAll {account : Account} (isPart : Char → Bool) {chars : List (Char × Nat)}
    (h : chars.foldlM (fun (p : Progress) c => p.pass account (isPart c.1) c.2) p = some q) :
    ∃ usage, q = { p with usage := usage } := by
  induction chars generalizing p with
  | nil =>
    cases h
    exact ⟨_, rfl⟩
  | cons c rest ih =>
    rw [List.foldlM_cons] at h
    obtain ⟨r, hFirst, hRest⟩ := Option.bind_eq_some_iff.mp h
    obtain ⟨usage, rfl⟩ := exists_of_pass hFirst
    obtain ⟨usage', rfl⟩ := ih hRest
    exact ⟨usage', rfl⟩

/-! ## Text -/

/-- A piece of text is a character or the name of an entity with a text. -/
theorem exists_of_addPiece {account : Account} {piece : Piece} {n : Nat}
    (h : p.addPiece d enter account (piece, n) = some q) :
    (∃ c usage, { p with usage := usage }.addText [c] = some q ∧
      (piece = .plain c ∨ piece = .numbered c ∨
        ∃ name, piece = .entity name ∧ d.meaning name = .character c)) ∨
    ∃ name text usage, enter { p with usage := usage } text = some q ∧
      piece = .entity name ∧ d.meaning name = .text text := by
  cases piece with
  | plain c =>
    obtain ⟨r, hPass, hText⟩ := Option.bind_eq_some_iff.mp h
    obtain ⟨usage, rfl⟩ := exists_of_pass hPass
    exact .inl ⟨c, usage, hText, .inl rfl⟩
  | numbered c =>
    obtain ⟨r, hPass, hText⟩ := Option.bind_eq_some_iff.mp h
    obtain ⟨usage, rfl⟩ := exists_of_pass hPass
    exact .inl ⟨c, usage, hText, .inr (.inl rfl)⟩
  | entity name =>
    obtain ⟨r, hPass, hText⟩ := Option.bind_eq_some_iff.mp h
    obtain ⟨usage, rfl⟩ := exists_of_pass hPass
    cases hMeaning : d.meaning name with
    | character c =>
      simp only [hMeaning] at hText
      exact .inl ⟨c, _, hText, .inr (.inr ⟨name, rfl, hMeaning⟩)⟩
    | text t =>
      simp only [hMeaning] at hText
      exact .inr ⟨name, t, usage, hText, rfl, hMeaning⟩
    | distant => simp [hMeaning] at hText
    | unknown => simp [hMeaning] at hText
    | undeclared => simp [hMeaning] at hText

/-- A run of text is only counted outside the root, and taken piece by piece inside. -/
theorem exists_of_addRun {run : List Char} (h : p.addRun d enter src run = some q) :
    (p.frames = [] ∧ ∃ usage, q = { p with usage := usage }) ∨
    p.frames ≠ [] ∧ ∃ pieces r usage, pieces? src run = some pieces ∧
      pieces.foldlM (addPiece d enter src.account) p = some r ∧
      q = { r with usage := usage } := by
  unfold addRun at h
  split at h
  · rename_i hNil
    split at h
    · exact .inl ⟨hNil, exists_of_charge h⟩
    · cases h
  · rename_i hSome
    split at h
    · cases h
    · split at h
      · cases h
      · rename_i pieces hPieces
        split at h
        · cases h
        · rename_i r hFold
          obtain ⟨usage, rfl⟩ := exists_of_charge h
          exact .inr ⟨hSome, pieces, r, usage, hPieces, hFold, rfl⟩

theorem exists_of_addLiteral {run : List Char} (h : p.addLiteral src run = some q) :
    ∃ usage, { p with usage := usage }.addText (src.settled run) = some q := by
  unfold addLiteral at h
  simp only at h
  split at h
  · cases h
  · rename_i r hFold
    obtain ⟨usage, rfl⟩ := exists_of_passAll (fun c => c = '\n' || c = ']') hFold
    split at h
    · cases h
    · rename_i r' hCharge
      obtain ⟨usage', rfl⟩ := exists_of_charge hCharge
      obtain ⟨r'', hEnd, hText⟩ := Option.bind_eq_some_iff.mp h
      obtain ⟨usage'', rfl⟩ := exists_of_charge hEnd
      exact ⟨usage'', hText⟩

/-! ## Elements -/

/-- A tag opens an element, and a complete one closes it as well. -/
theorem exists_of_openInner {name : QualifiedName} {written : List (QualifiedName × List Char)}
    {complete : Bool} (h : p.openInner d depth src name written complete = some q) :
    ∃ attributes f usage, Frame.open? p.scope name attributes = some f ∧
      (if complete then { p with usage := usage }.addTree f.close
        else some { p with frames := f :: p.frames, usage := usage }) = some q := by
  unfold openInner at h
  split at h
  · cases h
  · split at h
    · cases h
    · rename_i attributes usage _
      split at h
      · cases h
      · rename_i f hFrame
        exact ⟨attributes, f, usage, hFrame, h⟩

theorem exists_of_closeInner {name : QualifiedName} (h : p.closeInner name = some q) :
    ∃ f outer, p.frames = f :: outer ∧ { p with frames := outer }.addTree f.close = some q := by
  unfold closeInner at h
  split at h
  · cases h
  · rename_i f outer hFrames
    split at h
    · exact ⟨f, outer, hFrames, h⟩
    · cases h

/-- The text of an entity changes the innermost open element only. -/
theorem exists_of_enter {feed : Progress → List Char → Option Progress} {text : List Char}
    (h : p.enter feed text = some q) :
    ∃ f g outer usage, p.frames = f :: outer ∧
      feed ⟨[f], none, p.usage⟩ text = some ⟨[g], none, usage⟩ ∧
      q = { p with frames := g :: outer, usage := usage } := by
  unfold Progress.enter at h
  split at h
  · cases h
  · rename_i f outer hFrames
    split at h
    · rename_i g usage hInner
      cases h
      exact ⟨f, g, outer, usage, hFrames, hInner, rfl⟩
    · cases h

end Progress

/-! ## Whole texts -/

/-- What every change to what has been read keeps. An element is opened by a tag that was scanned;
the text of an entity is read inside the innermost open element, as if that were the only one. -/
structure Invariant (I : Progress → Prop) : Prop where
  counted : ∀ {p : Progress} (usage : Usage), I p → I { p with usage := usage }
  addText : ∀ {p q : Progress} {text : List Char}, I p → p.addText text = some q → I q
  opened : ∀ {p : Progress} {src : Source} {text rest : List Char} {name : QualifiedName}
    {written attributes : List (QualifiedName × List Char)} {complete : Bool} {f : Frame}, I p →
    scanMarkup src text = some (.opening name written complete, rest) →
    Frame.open? p.scope name attributes = some f → I { p with frames := f :: p.frames }
  closed : ∀ {p q : Progress} {f : Frame}, I { p with frames := f :: p.frames } →
    p.addTree f.close = some q → I q
  entered : ∀ {p : Progress} {f : Frame} {outer : List Frame}, I p → p.frames = f :: outer →
    I ⟨[f], none, p.usage⟩
  left : ∀ {p : Progress} {f g : Frame} {outer : List Frame} {usage : Usage}, I p →
    p.frames = f :: outer → I ⟨[g], none, usage⟩ →
    I { p with frames := g :: outer, usage := usage }

namespace Invariant

variable {I : Progress → Prop} (keeps : Invariant I) {p q : Progress} {d : Definitions}
  {depth : Nat} {src : Source}
include keeps

theorem enter {feed : Progress → List Char → Option Progress}
    (hFeed : ∀ (p q : Progress) (text : List Char), I p → feed p text = some q → I q)
    (h : I p) {text : List Char} (hEnter : p.enter feed text = some q) : I q := by
  obtain ⟨f, g, outer, usage, hFrames, hInner, rfl⟩ := Progress.exists_of_enter hEnter
  exact keeps.left h hFrames (hFeed _ _ _ (keeps.entered h hFrames) hInner)

theorem openInner (h : I p) {text rest : List Char} {name : QualifiedName}
    {written : List (QualifiedName × List Char)} {complete : Bool}
    (hScan : scanMarkup src text = some (.opening name written complete, rest))
    (hOpen : p.openInner d depth src name written complete = some q) : I q := by
  obtain ⟨attributes, f, usage, hFrame, hEnd⟩ := Progress.exists_of_openInner hOpen
  have hOpened : I { p with frames := f :: p.frames, usage := usage } :=
    keeps.counted usage (keeps.opened h hScan hFrame)
  cases complete with
  | false =>
    cases hEnd
    exact hOpened
  | true => exact keeps.closed (p := { p with usage := usage }) hOpened hEnd

theorem closeInner (h : I p) {name : QualifiedName} (hClose : p.closeInner name = some q) :
    I q := by
  obtain ⟨f, outer, hFrames, hAdd⟩ := Progress.exists_of_closeInner hClose
  refine keeps.closed (p := { p with frames := outer }) ?_ hAdd
  rw [← hFrames]
  exact h

section Steps

variable {enter : Progress → List Char → Option Progress}
  (hEnter : ∀ (p q : Progress) (text : List Char), I p → enter p text = some q → I q)
include hEnter

theorem addPieces (h : I p) {account : Account} {pieces : List (Piece × Nat)}
    (hAdd : pieces.foldlM (Progress.addPiece d enter account) p = some q) : I q := by
  induction pieces generalizing p with
  | nil =>
    cases hAdd
    exact h
  | cons piece rest ih =>
    rw [List.foldlM_cons] at hAdd
    obtain ⟨r, hFirst, hRest⟩ := Option.bind_eq_some_iff.mp hAdd
    refine ih ?_ hRest
    obtain ⟨c, usage, hText, -⟩ | ⟨name, text, usage, hInner, -, -⟩ :=
      Progress.exists_of_addPiece hFirst
    · exact keeps.addText (keeps.counted usage h) hText
    · exact hEnter _ _ _ (keeps.counted usage h) hInner

theorem addRun (h : I p) {run : List Char} (hAdd : p.addRun d enter src run = some q) : I q := by
  obtain ⟨-, usage, rfl⟩ | ⟨-, pieces, r, usage, -, hFold, rfl⟩ := Progress.exists_of_addRun hAdd
  · exact keeps.counted usage h
  · exact keeps.counted usage (keeps.addPieces hEnter h hFold)

theorem step (h : I p) {text rest : List Char} {token : Token}
    (hScan : scanMarkup src text = some (token, rest))
    (hStep : p.step d depth enter src token = some q) : I q := by
  cases token with
  | text run => exact keeps.addRun hEnter h hStep
  | literal run =>
    obtain ⟨usage, hText⟩ := Progress.exists_of_addLiteral hStep
    exact keeps.addText (keeps.counted usage h) hText
  | opening name written complete => exact keeps.openInner h hScan hStep
  | closing name => exact keeps.closeInner h hStep
  | remark =>
    cases hStep
    exact h

theorem feedWith (h : I p) {text : List Char}
    (hFeed : p.feedWith src (Progress.step d depth enter src) text = some q) : I q := by
  fun_induction Progress.feedWith src (Progress.step d depth enter src) p text with
  | case1 p =>
    cases hFeed
    exact h
  | case2 p text hScan => cases hFeed
  | case3 p text token rest hScan hNone => cases hFeed
  | case4 p text token rest hScan r hStep ih =>
    obtain ⟨counted, hCharge, hToken⟩ := Option.bind_eq_some_iff.mp hStep
    obtain ⟨usage, rfl⟩ := Progress.exists_of_charge hCharge
    exact ih (keeps.step hEnter (keeps.counted usage h) hScan hToken) hFeed
  | case5 p c text hRun hNone => cases hFeed
  | case6 p c text hRun r hStep ih => exact ih (keeps.addRun hEnter h hStep) hFeed

end Steps

/-- Entities are nested: by induction on how deep they may be. -/
theorem feed (d : Definitions) (depth : Nat) (src : Source) (h : I p) {text : List Char}
    (hFeed : p.feed d depth src text = some q) : I q := by
  induction depth generalizing src p q text with
  | zero =>
    refine keeps.feedWith ?_ h hFeed
    intro p q text _ hNone
    cases hNone
  | succ depth ih =>
    refine keeps.feedWith ?_ h hFeed
    intro p q text hOuter hEnter
    refine keeps.enter ?_ hOuter hEnter
    intro p q text hInner hText
    exact ih .entity hInner hText

end Invariant

/-! ## Whole documents -/

theorem exists_of_readRoot {src : Source} {before : Nat} {text : List Char} {d : Definitions}
    {usage : Usage} {tree : Tree} (h : readRoot src before text (d, usage) = some tree) :
    ∃ start last, (Progress.start start).feed d d.entities.length src text =
      some ⟨[], some tree, last⟩ := by
  simp only [readRoot] at h
  split at h
  · cases h
  · rename_i start _
    split at h
    · rename_i root last hFeed
      subst h
      exact ⟨start, last, hFeed⟩
    · cases h

theorem exists_of_readText {src : Source} {text : List Char} {tree : Tree}
    (h : readText src text = some tree) :
    ∃ standsAlone content doctype rest d before start last,
      afterDeclaration? src (withoutMark text) = some (standsAlone, content) ∧
      scanProlog src (src.textSize text - src.textSize content) none content =
        some (doctype, rest) ∧
      Definitions.ofDoctype? src standsAlone doctype = some (d, before) ∧
      (Progress.start start).feed d d.entities.length src rest = some ⟨[], some tree, last⟩ := by
  simp only [readText] at h
  split at h
  · cases h
  · rename_i standsAlone content hContent
    split at h
    · cases h
    · rename_i doctype rest hProlog
      obtain ⟨⟨d, before⟩, hDefinitions, hRoot⟩ := Option.bind_eq_some_iff.mp h
      obtain ⟨start, last, hFeed⟩ := exists_of_readRoot hRoot
      exact ⟨standsAlone, content, doctype, rest, d, before, start, last, hContent, hProlog,
        hDefinitions, hFeed⟩

theorem exists_of_read {document : String} {tree : Tree} (h : read document = .ok tree) :
    ∃ src text, decoded? document.toList = some (src, text) ∧ readText src text = some tree := by
  rw [read] at h
  split at h
  · rename_i other hChars
    cases h
    unfold readChars at hChars
    split at hChars
    · cases hChars
    · rename_i src text hDecoded
      split at hChars
      · exact ⟨src, text, hDecoded, hChars⟩
      · cases hChars
  · cases h

/-- What holds in front of the root and is kept holds when the root has been read. -/
theorem Invariant.read {I : Progress → Prop} (keeps : Invariant I)
    (hStart : ∀ usage, I (.start usage)) {document : String} {tree : Tree}
    (h : Reading.read document = .ok tree) : ∃ last, I ⟨[], some tree, last⟩ := by
  obtain ⟨src, text, -, hText⟩ := exists_of_read h
  obtain ⟨-, -, -, rest, d, -, start, last, -, -, -, hFeed⟩ := exists_of_readText hText
  exact ⟨last, keeps.feed d d.entities.length src (hStart start) hFeed⟩

end XmlLayout.Reading
