import Mathlib.Data.List.Basic
import Spruce.Proofs.RoundTrip.Reads
import Spruce.Text.Unicode
import Spruce.Tree.Printer

set_option autoImplicit false

/-!
# Lines of printed programs

A printed line is indented for the braces that are open before it (`Text.IsIndented`). Lines that
are indented in their turn and close as many braces as they open make a block (`IsBlock`); what
stands after other text on its line, with lines of its own below it, hangs (`Hangs`). A block may
stand deeper in braces (`IsBlock.braced`), and a hanging text after any head (`Hangs.after`),
which together give the layout of case constructs and bodies.

Main definitions: `braces`, `Text.IsIndented`, `IsBlock`, `Hangs`, and `Text.IsInline` for texts
that stand within a line.
-/

namespace Spruce

/-! ## Indented lines -/

/-- The number of braces that a text opens, less the number of those that it closes. -/
def braces (cs : Text) : Int := cs.count '{' - cs.count '}'

/-- A line that starts with two blanks for each of the braces open before it, or for one less if the
line itself starts by closing one. What comes after those blanks neither starts nor ends with white
space. -/
def Text.IsIndented (opened : Int) (line : Text) : Prop :=
  ∃ (level : Nat) (c : Char) (cs : Text), line = List.replicate (2 * level) ' ' ++ c :: cs ∧
    (level : Int) = (if c = '}' then opened - 1 else opened) ∧ isWhiteSpace c = false ∧
      ∀ d ∈ line.getLast?, isWhiteSpace d = false

/-- Lines of which each is indented for the braces left open by those before it. -/
def AreIndented : (opened : Int) → (lines : List Text) → Prop
  | _, [] => True
  | opened, line :: lines =>
      '\n' ∉ line ∧ line.IsIndented opened ∧ AreIndented (opened + braces line) lines

/-- Lines with a newline between each two. -/
def joinedLines (lines : List Text) : Text := ['\n'].intercalate lines

theorem braces_append (cs ds : Text) : braces (cs ++ ds) = braces cs + braces ds := by
  simp only [braces, List.count_append]
  omega

theorem braces_flatten_append (ls ls' : List Text) :
    braces (ls ++ ls').flatten = braces ls.flatten + braces ls'.flatten := by
  rw [List.flatten_append, braces_append]

theorem areIndented_append {opened : Int} {ls ls' : List Text} :
    AreIndented opened (ls ++ ls') ↔
      AreIndented opened ls ∧ AreIndented (opened + braces ls.flatten) ls' := by
  induction ls generalizing opened with
  | nil => simp [AreIndented, braces]
  | cons l ls ih =>
      rw [List.cons_append, AreIndented, AreIndented, ih, List.flatten_cons, braces_append,
        Int.add_assoc]
      simp only [and_assoc]

/-- Each line is indented for all lines before it. -/
theorem AreIndented.line {opened : Int} {ls before after : List Text} {line : Text}
    (h : AreIndented opened ls) (hls : ls = before ++ line :: after) :
    '\n' ∉ line ∧ line.IsIndented (opened + braces before.flatten) := by
  subst hls
  obtain ⟨-, hline, hindented, -⟩ := areIndented_append.1 h
  exact ⟨hline, hindented⟩

theorem AreIndented.newline_not_mem {opened : Int} {ls : List Text} (h : AreIndented opened ls) :
    ∀ line ∈ ls, '\n' ∉ line := by
  intro line hline
  obtain ⟨before, after, hls⟩ := List.append_of_mem hline
  exact (h.line hls).1

/-- A line with two more blanks before it. -/
def deepened (line : Text) : Text := ' ' :: ' ' :: line

theorem deeper_append (indent line : Text) : deeper indent ++ line = indent ++ deepened line := by
  rw [deeper, List.append_assoc]
  rfl

theorem braces_flatten_deepened (ls : List Text) :
    braces (ls.map deepened).flatten = braces ls.flatten := by
  induction ls with
  | nil => rfl
  | cons l ls ih =>
      rw [List.map_cons, List.flatten_cons, List.flatten_cons, braces_append, braces_append, ih]
      rfl

theorem Text.IsIndented.deepened {opened : Int} {line : Text} (h : line.IsIndented opened) :
    (Spruce.deepened line).IsIndented (opened + 1) := by
  obtain ⟨level, c, cs, rfl, hlevel, hfirst, hlast⟩ := h
  refine ⟨level + 1, c, cs, rfl, ?_, hfirst, ?_⟩
  · split at hlevel <;> simp_all
  · intro d hd
    refine hlast d ?_
    rwa [Spruce.deepened, List.getLast?_cons_of_ne_nil (List.cons_ne_nil _ _),
      List.getLast?_cons_of_ne_nil (by simp)] at hd

/-- Lines stay indented one level deeper if one more brace is open. -/
theorem AreIndented.deepened {opened : Int} {ls : List Text} (h : AreIndented opened ls) :
    AreIndented (opened + 1) (ls.map deepened) := by
  induction ls generalizing opened with
  | nil => trivial
  | cons l ls ih =>
      obtain ⟨hline, hindented, hlater⟩ := h
      refine ⟨?_, hindented.deepened, ?_⟩
      · simpa [Spruce.deepened] using hline
      · have hbraces : opened + 1 + braces (Spruce.deepened l) = opened + braces l + 1 := by
          show opened + 1 + braces l = opened + braces l + 1
          omega
        rw [hbraces]
        exact ih hlater

/-! ## Texts within a line -/

/-- A character that neither ends a line nor changes how many braces are open. -/
def isPlain (c : Char) : Bool := c != '\n' && c != '{' && c != '}'

/-- Plain characters only. -/
def Text.IsPlain (cs : Text) : Prop := ∀ c ∈ cs, isPlain c = true

instance : DecidablePred Text.IsPlain := fun cs =>
  decidable_of_iff (cs.all isPlain = true) List.all_eq_true

theorem Text.isPlain_append {cs ds : Text} : Text.IsPlain (cs ++ ds) ↔ cs.IsPlain ∧ ds.IsPlain :=
  List.forall_mem_append

theorem Text.isPlain_cons {c : Char} {cs : Text} :
    Text.IsPlain (c :: cs) ↔ isPlain c = true ∧ cs.IsPlain := List.forall_mem_cons

theorem Text.IsPlain.newline_not_mem {cs : Text} (h : cs.IsPlain) : '\n' ∉ cs :=
  fun hc => absurd (h _ hc) (by decide)

theorem Text.IsPlain.braces_eq {cs : Text} (h : cs.IsPlain) : braces cs = 0 := by
  have hopened : '{' ∉ cs := fun hc => absurd (h _ hc) (by decide)
  have hclosed : '}' ∉ cs := fun hc => absurd (h _ hc) (by decide)
  rw [braces, List.count_eq_zero_of_not_mem hopened, List.count_eq_zero_of_not_mem hclosed]
  rfl

/-- A character that can stand first on a line without closing a brace. -/
def isVisible (c : Char) : Bool := !isWhiteSpace c && c != '}'

/-- A text that does not end with white space. -/
def Text.EndsVisible (cs : Text) : Prop := ∀ d ∈ cs.getLast?, isWhiteSpace d = false

theorem Text.EndsVisible.append {cs ds : Text} (hne : ds ≠ []) (h : ds.EndsVisible) :
    Text.EndsVisible (cs ++ ds) := by
  intro d hd
  rw [List.getLast?_append_of_ne_nil cs hne] at hd
  exact h d hd

/-- A plain text with no white space at either end. -/
structure Text.IsInline (cs : Text) : Prop where
  plain : cs.IsPlain
  begins : cs.Begins isVisible
  ends : cs.EndsVisible

theorem Text.Begins.ne_nil {f : Char → Bool} {cs : Text} (h : cs.Begins f) : cs ≠ [] := by
  obtain ⟨c, cs, rfl, -⟩ := h
  exact List.cons_ne_nil c cs

theorem Text.IsInline.append {cs ds : Text} (h : cs.IsInline) (h' : ds.IsInline) :
    Text.IsInline (cs ++ ds) :=
  ⟨Text.isPlain_append.2 ⟨h.plain, h'.plain⟩, h.begins.append ds, h'.ends.append h'.begins.ne_nil⟩

/-- What stands between two texts of a line may be any plain text, white space included. -/
theorem Text.IsInline.around {cs ds : Text} (h : cs.IsInline) (between : Text)
    (hbetween : between.IsPlain) (h' : ds.IsInline) :
    Text.IsInline (cs ++ (between ++ ds)) := by
  refine ⟨?_, h.begins.append _, ?_⟩
  · exact Text.isPlain_append.2 ⟨h.plain, Text.isPlain_append.2 ⟨hbetween, h'.plain⟩⟩
  · rw [← List.append_assoc]
    exact h'.ends.append h'.begins.ne_nil

/-- A text of plain characters that can be seen. -/
theorem Text.IsInline.of_forall {cs : Text} (hne : cs ≠ [])
    (h : ∀ c ∈ cs, isPlain c = true ∧ isVisible c = true) : cs.IsInline := by
  refine ⟨fun c hc => (h c hc).1, ?_, fun d hd => ?_⟩
  · obtain ⟨c, cs, rfl⟩ := List.exists_cons_of_ne_nil hne
    exact Text.begins_cons (h c List.mem_cons_self).2 cs
  · have hvisible := (h d (List.mem_of_getLast? hd)).2
    simp only [isVisible, Bool.and_eq_true, Bool.not_eq_true'] at hvisible
    exact hvisible.1

/-! ## Blocks and hanging texts -/

/-- Lines that are indented as they stand, and close what they open. -/
structure IsBlock (lines : List Text) : Prop where
  indented : AreIndented 0 lines
  balanced : braces lines.flatten = 0

/-- A text within a line and the lines below it, which close what it opens. -/
structure Hangs (first : Text) (later : List Text) : Prop where
  single : '\n' ∉ first
  begins : first.Begins isVisible
  ends : first.EndsVisible
  indented : AreIndented (braces first) later
  balanced : braces first + braces later.flatten = 0

theorem IsBlock.nil : IsBlock [] := ⟨trivial, rfl⟩

theorem IsBlock.append {ls ls' : List Text} (h : IsBlock ls) (h' : IsBlock ls') :
    IsBlock (ls ++ ls') := by
  obtain ⟨hindented, hbalanced⟩ := h
  obtain ⟨hindented', hbalanced'⟩ := h'
  refine ⟨areIndented_append.2 ⟨hindented, ?_⟩, ?_⟩
  · rwa [hbalanced]
  · rw [braces_flatten_append, hbalanced, hbalanced']
    rfl

/-- A hanging text at the beginning of a line. -/
theorem Hangs.isBlock {first : Text} {later : List Text} (h : Hangs first later) :
    IsBlock (first :: later) := by
  obtain ⟨hsingle, ⟨c, cs, rfl, hvisible⟩, hends, hindented, hbalanced⟩ := h
  simp only [isVisible, Bool.and_eq_true, Bool.not_eq_true', bne_iff_ne] at hvisible
  refine ⟨⟨hsingle, ⟨0, c, cs, rfl, ?_, hvisible.1, hends⟩, ?_⟩, ?_⟩
  · rw [if_neg hvisible.2]
    rfl
  · rwa [Int.zero_add]
  · rwa [List.flatten_cons, braces_append]

theorem Text.IsInline.hangs {cs : Text} (h : cs.IsInline) : Hangs cs [] := by
  refine ⟨h.plain.newline_not_mem, h.begins, h.ends, trivial, ?_⟩
  rw [h.plain.braces_eq]
  rfl

/-- Lines without braces. -/
theorem IsBlock.of_inline {ls : List Text} (h : ∀ t ∈ ls, t.IsInline) : IsBlock ls := by
  induction ls with
  | nil => exact .nil
  | cons t ts ih =>
      obtain ⟨hfirst, hlater⟩ := List.forall_mem_cons.1 h
      exact hfirst.hangs.isBlock.append (ih hlater)

/-- A hanging text after another text of its line, with something between the two. -/
theorem Hangs.after {head first : Text} {later : List Text} (hhead : head.IsInline)
    (between : Text) (hbetween : between.IsPlain) (h : Hangs first later) :
    Hangs (head ++ between ++ first) later := by
  obtain ⟨hsingle, hfirst, hends, hindented, hbalanced⟩ := h
  have hplain : Text.IsPlain (head ++ between) := Text.isPlain_append.2 ⟨hhead.plain, hbetween⟩
  have hbraces : braces (head ++ between ++ first) = braces first := by
    rw [braces_append, hplain.braces_eq, Int.zero_add]
  refine ⟨?_, (hhead.begins.append between).append first, hends.append hfirst.ne_nil, ?_, ?_⟩
  · rw [List.mem_append]
    exact not_or.2 ⟨hplain.newline_not_mem, hsingle⟩
  · rwa [hbraces]
  · rwa [hbraces]

/-- A block in braces hangs from the brace that opens it. -/
theorem IsBlock.braced {ls : List Text} (h : IsBlock ls) :
    Hangs ['{'] (ls.map deepened ++ [['}']]) := by
  obtain ⟨hindented, hbalanced⟩ := h
  have hbraces : braces (ls.map deepened).flatten = 0 := by
    rw [braces_flatten_deepened, hbalanced]
  have hends : ∀ c : Char, isWhiteSpace c = false → Text.EndsVisible [c] := by
    rintro c hc _ ⟨⟩
    exact hc
  refine ⟨by decide, Text.begins_cons (by decide) _, hends '{' (by decide),
    areIndented_append.2 ⟨hindented.deepened, ?_⟩, ?_⟩
  · rw [hbraces]
    exact ⟨by decide, ⟨0, '}', [], rfl, rfl, by decide, hends '}' (by decide)⟩, trivial⟩
  · rw [braces_flatten_append, hbraces]
    rfl

/-! ## Putting lines together -/

theorem joinedLines_cons (first : Text) (later : List Text) :
    joinedLines (first :: later) = first ++ later.flatMap fun line => '\n' :: line :=
  intercalate_cons ['\n'] first later

theorem linesText_cons (line : Text) (lines : List Text) :
    linesText (line :: lines) = line ++ ['\n'] ++ linesText lines := List.flatMap_cons

theorem linesText_append (lines lines' : List Text) :
    linesText (lines ++ lines') = linesText lines ++ linesText lines' := List.flatMap_append

theorem joinedLines_append_newline {lines : List Text} (h : lines ≠ []) :
    joinedLines lines ++ ['\n'] = linesText lines := by
  obtain ⟨first, later, rfl⟩ := List.exists_cons_of_ne_nil h
  rw [joinedLines_cons, linesText_cons, List.append_assoc, List.append_assoc]
  refine congrArg (first ++ ·) ?_
  clear h
  induction later with
  | nil => rfl
  | cons line later ih =>
      rw [List.flatMap_cons, linesText_cons, List.append_assoc, ih]
      simp

/-- The first of some indented lines after other text. -/
theorem joinedLines_indented (indent first : Text) (later : List Text) :
    indent ++ joinedLines (first :: later.map (indent ++ ·)) =
      joinedLines ((first :: later).map (indent ++ ·)) := by
  rw [List.map_cons, joinedLines_cons, joinedLines_cons, List.append_assoc]

theorem append_joinedLines (head first : Text) (later : List Text) :
    head ++ joinedLines (first :: later) = joinedLines ((head ++ first) :: later) := by
  rw [joinedLines_cons, joinedLines_cons, List.append_assoc]

/-- Lines that stand one level deeper, between newlines, with a last line below them. -/
theorem newline_linesText_deeper (indent last : Text) (ls : List Text) :
    '\n' :: (linesText (ls.map (deeper indent ++ ·)) ++ (indent ++ last)) =
      ((ls.map deepened ++ [last]).map (indent ++ ·)).flatMap fun line => '\n' :: line := by
  induction ls with
  | nil => simp [linesText]
  | cons l ls ih =>
      rw [List.map_cons, List.map_cons, List.cons_append, List.map_cons, List.flatMap_cons, ← ih,
        linesText_cons, deeper_append]
      simp

/-- Lines in braces are the opening brace, the lines one level deeper and the closing brace. -/
theorem bracedLines_eq {indent : Text} {texts ls : List Text}
    (h : linesText texts = linesText (ls.map (deeper indent ++ ·))) :
    bracedLines indent texts =
      joinedLines (['{'] :: (ls.map deepened ++ [['}']]).map (indent ++ ·)) := by
  rw [bracedLines, h, joinedLines_cons, ← newline_linesText_deeper]
  simp

end Spruce
