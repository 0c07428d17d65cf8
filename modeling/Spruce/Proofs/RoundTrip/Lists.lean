import Mathlib.Data.List.Forall2
import Spruce.Proofs.RoundTrip.Atoms
import Spruce.Tree.Printer

set_option autoImplicit false

/-!
# Lists are read as they are printed

The printed form of a list, with commas between its elements or with one element a line, is read
as that list if the elements are. What a nonterminal for a list has to offer is that its rules make
a longer list of an element and a list; the same lemma then serves names, type expressions and
arguments, or constructors, statements and items.
-/

namespace Spruce

variable {filename : Option String}

/-! ## Readings of parts by a rule of their own -/

/-- All but the first of some readings, taken together by a rule. -/
theorem ReadsAll.together {follow : Char → Bool} {s : Symbol} {x : Nonterminal} {text : Text}
    (hx : x ≠ .number) (rule : Rule x) {Q : Meanings (s :: rule.parts) → Prop}
    {P : Meanings [s, .sub x] → Prop} (h : ReadsAll filename follow (s :: rule.parts) text Q)
    (hmeaning : ∀ span m ms, Q (m, ms) → P (m, ruleMeaning rule span ms, ())) :
    ReadsAll filename follow [s, .sub x] text P := by
  intro p rest hrest
  obtain ⟨ds, htight, hQ, hlex⟩ := h p rest hrest
  -- the derivations but the first become those of one node
  cases ds with
  | cons d ds =>
      obtain ⟨hfirst, hlater⟩ :=
        List.append_eq_nil_iff.1 ((Images.detachedSigns_cons _).symm.trans htight)
      refine ⟨.cons d (.cons (.node rule ds) .nil), ?_, hmeaning _ _ _ hQ, ?_⟩
      · exact Derivations.isTight_cons hfirst
          (Derivations.isTight_cons (Derivation.isTight_node hx hlater) rfl)
      · rw [hlex]
        exact congrArg (fun ts => Lexed.prepend (d.tokens ++ ts) _) (List.append_nil _).symm

/-! ## Commas -/

section

variable {E L M : Nonterminal} {β : Type} {R : E.Meaning → β → Prop}
  {S : L.Meaning → List β → Prop} {T : M.Meaning → List β → Prop}

/-- Elements with commas between them are read as a list of what the elements are read as. -/
theorem ReadsAs.commaList
    (hcons : ∀ {text b bs}, ReadsAll filename isDelimiter [.sub E, .sub M] text
      (fun ms => R ms.1 b ∧ T ms.2.1 bs) → Reads filename isDelimiter (.sub L) text
        fun m => S m (b :: bs))
    (hlast : Reads filename isDelimiter (.sub M) [] fun m => T m [])
    (hnext : ∀ {text bs}, ReadsAll filename isDelimiter [.tok .comma, .sub L] text
      (fun ms => S ms.2.1 bs) → Reads filename isDelimiter (.sub M) text fun m => T m bs)
    {ts : List Text} {bs : List β}
    (h : List.Forall₂ (fun t b => ReadsAs filename E t fun m => R m b) ts bs) (hne : bs ≠ []) :
    ReadsAs filename L (commaSeparated ts) fun m => S m bs := by
  -- a comma stands after an element only if there is another
  induction h with
  | nil => exact absurd rfl hne
  | @cons t b ts bs hfirst hlater ih =>
      cases hlater with
      | nil =>
          rw [commaSeparated_single]
          exact ⟨hfirst.begins.append _,
            hcons (.cons hfirst.reads (.last hlast) fun rest hrest => hrest)⟩
      | @cons u c ts bs _ _ =>
          have hwhole := ih (List.cons_ne_nil c bs)
          have hmore : Reads filename isDelimiter (.sub M)
              (',' :: ' ' :: commaSeparated (u :: ts)) fun m => T m (c :: bs) :=
            hnext (.symbol (t := .comma) (by decide) (.blank (.last hwhole.reads))
              fun rest _ => Text.opens_cons.2 (by decide))
          rw [commaSeparated_cons_cons]
          exact ⟨hfirst.begins.append _, hcons (.cons hfirst.reads (.last hmore)
            fun rest _ => Text.opens_cons.2 (by decide))⟩

end

theorem begins_of_forall₂ {x : Nonterminal} {β : Type} {R : x.Meaning → β → Prop}
    {ts : List Text} {bs : List β}
    (h : List.Forall₂ (fun t b => ReadsAs filename x t fun m => R m b) ts bs) :
    ∀ t ∈ ts, t.Begins isStart := by
  induction h with
  | nil => exact fun t ht => absurd ht List.not_mem_nil
  | cons hfirst _ ih =>
      intro t ht
      rcases List.mem_cons.1 ht with rfl | ht
      · exact hfirst.begins
      · exact ih t ht

theorem commaSeparated_opens {ts : List Text} (h : ∀ t ∈ ts, t.Begins isStart) {rest : Text}
    (hrest : rest.Opens isApart) : Text.Opens isApart (commaSeparated ts ++ rest) := by
  cases ts with
  | nil => exact hrest
  | cons t ts =>
      have hfirst := (h t List.mem_cons_self).mono fun _ => isApart_of_isStart
      cases ts with
      | nil =>
          rw [commaSeparated_single]
          exact ((hfirst.append _).append rest).opens
      | cons u ts =>
          rw [commaSeparated_cons_cons]
          exact ((hfirst.append _).append rest).opens

/-! ## Parentheses -/

/-- What stands in parentheses, and what comes after them. -/
theorem ReadsAll.inParens {follow : Char → Bool} {s : Symbol} {ss : List Symbol}
    {inner text : Text} {P : s.Meaning → Prop} {Q : Meanings ss → Prop}
    (h : Reads filename isDelimiter s inner P)
    (hopens : ∀ rest, Text.Opens isApart (inner ++ ')' :: rest))
    (hrest : ReadsAll filename follow ss text Q)
    (hnext : ∀ rest, Text.Opens follow rest → Text.Opens isApart (text ++ rest)) :
    ReadsAll filename follow (.tok .leftParen :: s :: .tok .rightParen :: ss)
      ('(' :: inner ++ ')' :: text) fun ms => P ms.2.1 ∧ Q ms.2.2.2 := by
  have hclose : ReadsAll filename follow (.tok .rightParen :: ss) (')' :: text) fun ms => Q ms.2 :=
    .symbol (by decide) hrest hnext
  refine .symbol (t := .leftParen) (by decide) (.cons h hclose ?_) ?_
  · exact fun rest _ => Text.opens_cons.2 (by decide)
  · intro rest _
    rw [List.append_assoc]
    exact hopens _

theorem ReadsAs.inParens {x : Nonterminal} {inner : Text} {P : x.Meaning → Prop}
    (h : ReadsAs filename x inner P) :
    ReadsAll filename isApart [.tok .leftParen, .sub x, .tok .rightParen] ('(' :: inner ++ [')'])
      fun ms => P ms.2.1 :=
  (ReadsAll.inParens h.reads (fun _ => h.opens_apart _) .nil fun _ hrest => hrest).imp
    fun _ hms => hms.1

/-! ## Lines -/

/-- The indentation of the first of some lines, or that of what comes after them. -/
def leading (indent outer : Text) : List Text → Text
  | [] => outer
  | _ :: _ => indent

/-- Lines with the indentation of the next after each. -/
def stacked (indent outer : Text) : List Text → Text
  | [] => []
  | c :: cs => c ++ ('\n' :: leading indent outer cs ++ stacked indent outer cs)

theorem linesText_indented (indent outer : Text) (cs : List Text) :
    linesText (cs.map fun c => indent ++ c) ++ outer =
      leading indent outer cs ++ stacked indent outer cs := by
  induction cs with
  | nil => exact (List.append_nil outer).symm
  | cons c cs ih =>
      have hlines : linesText ((c :: cs).map fun c => indent ++ c) =
          indent ++ c ++ ['\n'] ++ linesText (cs.map fun c => indent ++ c) := rfl
      rw [hlines, List.append_assoc, ih]
      simp [leading, stacked]

section

variable {indent outer : Text} (hindent : indent.IsBlanks) (houter : outer.IsBlanks)

include hindent houter in
theorem leading_isBlanks (cs : List Text) : (leading indent outer cs).IsBlanks := by
  cases cs with
  | nil => exact houter
  | cons _ _ => exact hindent

theorem stacked_opens {cs : List Text} (hcs : ∀ c ∈ cs, c.Begins isStart) {rest : Text}
    (hrest : rest.Opens isSolid) : Text.Opens isSolid (stacked indent outer cs ++ rest) := by
  cases cs with
  | nil => exact hrest
  | cons c cs =>
      -- a line starts with no blank, so that the indentation ends before it
      have hbegins := (hcs c List.mem_cons_self).mono fun _ => isSolid_of_isStart
      exact ((hbegins.append _).append rest).opens

include hindent houter

/-- A line, its end and the lines after it. -/
theorem ReadsAll.line {x : Nonterminal} {s : Symbol} {c : Text} {cs : List Text}
    {P : x.Meaning → Prop} {Q : s.Meaning → Prop} (hfirst : ReadsAs filename x c P)
    (hlater : Reads filename isSolid s (stacked indent outer cs) Q)
    (hbegins : ∀ c ∈ cs, c.Begins isStart) :
    ReadsAll filename isSolid [.sub x, .tok .newline, s] (stacked indent outer (c :: cs))
      fun ms => P ms.1 ∧ Q ms.2.2.1 := by
  have hend : ReadsAll filename isSolid [.tok .newline, s]
      ('\n' :: leading indent outer cs ++ stacked indent outer cs) fun ms => Q ms.2.1 :=
    (ReadsAll.cons (.newline (leading_isBlanks hindent houter cs)) (.last hlater) fun rest hrest =>
      stacked_opens hbegins hrest).imp fun _ hms => hms.2
  exact .cons hfirst.reads hend fun rest _ => Text.opens_cons.2 (by decide)

/-- Lines are read one by one if a longer list can be made of a line and a list. -/
theorem Reads.lines {E M : Nonterminal} {β : Type} {R : E.Meaning → β → Prop}
    {T : M.Meaning → List β → Prop}
    (hcons : ∀ {text b bs}, ReadsAll filename isSolid [.sub E, .tok .newline, .sub M] text
      (fun ms => R ms.1 b ∧ T ms.2.2.1 bs) → Reads filename isSolid (.sub M) text
        fun m => T m (b :: bs))
    {last : List Text}
    (hlast : Reads filename isSolid (.sub M) (stacked indent outer last) fun m => T m [])
    (hbegins : ∀ c ∈ last, c.Begins isStart) {cs : List Text} {bs : List β}
    (h : List.Forall₂ (fun c b => ReadsAs filename E c fun m => R m b) cs bs) :
    Reads filename isSolid (.sub M) (stacked indent outer (cs ++ last)) (fun m => T m bs) ∧
      ∀ c ∈ cs ++ last, c.Begins isStart := by
  -- from the last line to the first, as each line is read before the next
  induction h with
  | nil => exact ⟨hlast, hbegins⟩
  | @cons c b cs bs hfirst _ ih =>
      obtain ⟨hlater, hstart⟩ := ih
      refine ⟨hcons (.line hindent houter hfirst hlater hstart), fun c' hc' => ?_⟩
      rcases List.mem_cons.1 hc' with rfl | hc'
      · exact hfirst.begins
      · exact hstart c' hc'

/-- Lines are read one by one, at least one, if what may follow a line is nothing or more lines. -/
theorem Reads.someLines {E L M : Nonterminal} {β : Type} {R : E.Meaning → β → Prop}
    {S : L.Meaning → List β → Prop} {T : M.Meaning → List β → Prop}
    (hcons : ∀ {text b bs}, ReadsAll filename isSolid [.sub E, .tok .newline, .sub M] text
      (fun ms => R ms.1 b ∧ T ms.2.2.1 bs) → Reads filename isSolid (.sub L) text
        fun m => S m (b :: bs))
    (hlast : Reads filename isSolid (.sub M) [] fun m => T m [])
    (hnext : ∀ {text bs}, Reads filename isSolid (.sub L) text (fun m => S m bs) →
      Reads filename isSolid (.sub M) text fun m => T m bs)
    {cs : List Text} {bs : List β}
    (h : List.Forall₂ (fun c b => ReadsAs filename E c fun m => R m b) cs bs) (hne : bs ≠ []) :
    Reads filename isSolid (.sub L) (stacked indent outer cs) fun m => S m bs := by
  cases h with
  | nil => exact absurd rfl hne
  | @cons c b cs bs hfirst hlater =>
      obtain ⟨hmore, hbegins⟩ := Reads.lines hindent houter (fun h => hnext (hcons h))
        (show Reads filename isSolid (.sub M) (stacked indent outer []) _ from hlast)
        (fun _ hc => absurd hc List.not_mem_nil) hlater
      rw [List.append_nil] at hmore hbegins
      exact hcons (.line hindent houter hfirst hmore hbegins)

omit hindent houter in
theorem bracedLines_indented (cs : List Text) :
    bracedLines outer (cs.map fun c => indent ++ c) =
      '{' :: (('\n' :: leading indent outer cs) ++ (stacked indent outer cs ++ ['}'])) := by
  rw [bracedLines, List.append_assoc, List.cons_append, List.cons_append, ← List.append_assoc,
    linesText_indented]
  simp

omit hindent houter in
/-- Lines in braces. -/
theorem ReadsAll.inBraces {s t : Symbol} {cs : List Text} {P : s.Meaning → Prop}
    {Q : t.Meaning → Prop} (hs : Reads filename isSolid s ('\n' :: leading indent outer cs) P)
    (ht : Reads filename isSolid t (stacked indent outer cs) Q)
    (hbegins : ∀ c ∈ cs, c.Begins isStart) :
    ReadsAll filename isApart [.tok .leftBrace, s, t, .tok .rightBrace]
      (bracedLines outer (cs.map fun c => indent ++ c)) fun ms => Q ms.2.2.1 := by
  have hclose : ReadsAll filename isApart [.tok .rightBrace] ['}'] fun _ => True :=
    .symbol (by decide) .nil fun _ hrest => hrest
  have hlines : ReadsAll filename isApart [t, .tok .rightBrace]
      (stacked indent outer cs ++ ['}']) fun ms => Q ms.1 :=
    (ReadsAll.cons ht hclose fun _ _ => Text.opens_cons.2 (by decide)).imp fun _ hms => hms.1
  rw [bracedLines_indented]
  refine .symbol (t := .leftBrace) (by decide) ((ReadsAll.cons hs hlines ?_).imp fun _ hms => hms.2)
    fun _ _ => Text.opens_cons.2 (by decide)
  intro rest _
  rw [List.append_assoc]
  exact stacked_opens hbegins (Text.opens_cons.2 (by decide))

end

end Spruce
