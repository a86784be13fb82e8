import Mathlib.Data.List.DropRight
import Mathlib.Data.List.SplitBy
import Mathlib.Data.List.TakeWhile
import VertexEngine.Text.Blank

/-!
# Blanks and words

What `trim` and `words` come to, told without them.

* `Spaced` relates a text to the words in it: blanks, a word, a blank and so on.
  `words_eq_iff` says that these are the words that are found.
* `trim_eq` says what is cut off, and `head?_trim` that the first character that is left is the
  first one that is not blank.
* `lines_flatMap` says that a text can have any lines, and `lines_append_of_ended` what the lines of
  two texts come to that are put together.
-/

namespace VertexEngine.Text

variable {cs bs f rest : List Char}

/-- All of these characters are blank. -/
def AllBlank (cs : List Char) : Prop :=
  ∀ c ∈ cs, isBlank c = true

/-- At least one character, and none that is blank. -/
structure IsWord (cs : List Char) : Prop where
  ne_nil : cs ≠ []
  not_blank : ∀ c ∈ cs, isBlank c = false

/-- The words of a text, in their order: between two of them, and only there, a blank is needed. -/
inductive Spaced : List Char → List (List Char) → Prop
  | blank {bs : List Char} (h : AllBlank bs) : Spaced bs []
  | word {bs f rest : List Char} {fs : List (List Char)} (hb : AllBlank bs) (hf : IsWord f)
    (hr : ∀ c ∈ rest.head?, isBlank c = true) (h : Spaced rest fs) :
    Spaced (bs ++ (f ++ rest)) (f :: fs)

/-! ## Runs -/

/-- The runs of blanks and of other characters. -/
def runs (cs : List Char) : List (List Char) :=
  cs.splitBy fun a b => isBlank a == isBlank b

theorem words_eq (cs : List Char) : words cs = (runs cs).filter fun run => run.all (!isBlank ·) :=
  rfl

/-- Where a blank and another character meet, a run ends. -/
theorem runs_append {as : List Char}
    (h : ∀ a ∈ as.getLast?, ∀ b ∈ bs.head?, isBlank a ≠ isBlank b) :
    runs (as ++ bs) = runs as ++ runs bs :=
  List.splitBy_append fun a ha b hb => beq_eq_false_iff_ne.mpr (h a ha b hb)

theorem words_of_allBlank (h : AllBlank bs) : words bs = [] := by
  rw [words_eq, List.filter_eq_nil_iff]
  intro run hrun hall
  obtain ⟨c, hc⟩ := List.exists_mem_of_ne_nil run (List.ne_nil_of_mem_splitBy hrun)
  have hmem : c ∈ bs := by
    rw [← List.flatten_splitBy (fun a b => isBlank a == isBlank b) bs]
    exact List.mem_flatten.mpr ⟨run, hrun, hc⟩
  have hnot : (!isBlank c) = true := List.all_eq_true.mp hall c hc
  rw [h c hmem] at hnot
  cases hnot

theorem runs_of_isWord (h : IsWord f) : runs f = [f] := by
  refine List.splitBy_of_isChain h.ne_nil (List.Pairwise.isChain ?_)
  refine List.pairwise_of_forall_mem_list fun a ha b hb => ?_
  rw [h.not_blank a ha, h.not_blank b hb]
  rfl

theorem IsWord.head? (h : IsWord f) : ∀ c ∈ (f ++ rest).head?, isBlank c = false := by
  intro c hc
  cases f with
  | nil => exact absurd rfl h.ne_nil
  | cons a f =>
    obtain rfl : a = c := by simpa using hc
    exact h.not_blank a List.mem_cons_self

/-- Blanks before a word and a blank behind it are nothing but that. -/
theorem words_word (hb : AllBlank bs) (hf : IsWord f) (hr : ∀ c ∈ rest.head?, isBlank c = true) :
    words (bs ++ (f ++ rest)) = f :: words rest := by
  have hfront : runs (bs ++ (f ++ rest)) = runs bs ++ runs (f ++ rest) := by
    refine runs_append fun a ha b hb' => ?_
    rw [hb a (List.mem_of_getLast? ha), hf.head? b hb']
    exact Bool.true_eq_false.mp
  have hback : runs (f ++ rest) = [f] ++ runs rest := by
    rw [← runs_of_isWord hf]
    refine runs_append fun a ha b hb' => ?_
    rw [hf.not_blank a (List.mem_of_getLast? ha), hr b hb']
    exact Bool.false_eq_true.mp
  have hkeep : f.all (!isBlank ·) = true :=
    List.all_eq_true.mpr fun c hc => by rw [hf.not_blank c hc]; rfl
  have hnone : (runs bs).filter (fun run => run.all (!isBlank ·)) = [] := words_of_allBlank hb
  rw [words_eq, hfront, hback, List.filter_append, hnone, List.nil_append, List.singleton_append,
    List.filter_cons, if_pos hkeep, words_eq]

/-! ## Words -/

theorem Spaced.words_eq {fs : List (List Char)} (h : Spaced cs fs) : words cs = fs := by
  induction h with
  | blank h => exact words_of_allBlank h
  | word hb hf hr _ ih => rw [words_word hb hf hr, ih]

/-- What is left in front when all blanks before it are gone. -/
theorem head?_dropWhile (cs : List Char) :
    ∀ c ∈ (cs.dropWhile isBlank).head?, isBlank c = false := by
  intro c hc
  have hnot := List.head?_dropWhile_not isBlank cs
  rw [Option.mem_def.mp hc] at hnot
  exact hnot

/-- Every text has its words. -/
theorem exists_spaced (cs : List Char) : ∃ fs, Spaced cs fs := by
  -- What is left behind the first word is shorter.
  induction hn : cs.length using Nat.strongRecOn generalizing cs with
  | ind n ih =>
    subst hn
    have hb : AllBlank (cs.takeWhile isBlank) := fun c hc => List.mem_takeWhile_imp hc
    have hsplit := List.takeWhile_append_dropWhile (p := isBlank) (l := cs)
    have hhead := head?_dropWhile cs
    generalize cs.takeWhile isBlank = bs at hb hsplit
    generalize cs.dropWhile isBlank = d at hsplit hhead
    subst hsplit
    cases d with
    | nil =>
      rw [List.append_nil]
      exact ⟨[], .blank hb⟩
    | cons c d =>
      let f := c :: d.takeWhile (!isBlank ·)
      let rest := d.dropWhile (!isBlank ·)
      have hc : isBlank c = false := hhead c rfl
      have hf : IsWord f := by
        refine ⟨List.cons_ne_nil _ _, fun a ha => ?_⟩
        rcases List.mem_cons.mp ha with rfl | ha
        · exact hc
        · simpa using List.mem_takeWhile_imp ha
      have hr : ∀ a ∈ rest.head?, isBlank a = true := by
        intro a ha
        have hnot := List.head?_dropWhile_not (!isBlank ·) d
        rw [Option.mem_def.mp ha] at hnot
        simpa using hnot
      have hlt : rest.length < (bs ++ c :: d).length := by
        have hle : rest.length ≤ d.length := List.length_dropWhile_le _ d
        rw [List.length_append, List.length_cons]
        omega
      obtain ⟨fs, hfs⟩ := ih _ hlt rest rfl
      have hd : c :: d = f ++ rest := by
        rw [List.cons_append, List.takeWhile_append_dropWhile]
      rw [hd]
      exact ⟨f :: fs, .word hb hf hr hfs⟩

theorem words_eq_iff {fs : List (List Char)} : words cs = fs ↔ Spaced cs fs := by
  refine ⟨fun h => ?_, Spaced.words_eq⟩
  obtain ⟨fs', hfs⟩ := exists_spaced cs
  rw [← h, hfs.words_eq]
  exact hfs

/-! ## Trimming -/

theorem trim_eq (cs : List Char) : trim cs = (cs.dropWhile isBlank).rdropWhile isBlank :=
  rfl

theorem words_blank_append (hb : AllBlank bs) (h : ∀ c ∈ cs.head?, isBlank c = false) :
    words (bs ++ cs) = words cs := by
  have hruns : runs (bs ++ cs) = runs bs ++ runs cs := by
    refine runs_append fun a ha b hb' => ?_
    rw [hb a (List.mem_of_getLast? ha), h b hb']
    exact Bool.true_eq_false.mp
  rw [words_eq, hruns, List.filter_append, ← words_eq, words_of_allBlank hb, List.nil_append,
    words_eq]

theorem words_append_blank (hb : AllBlank bs) (h : ∀ c ∈ cs.getLast?, isBlank c = false) :
    words (cs ++ bs) = words cs := by
  have hruns : runs (cs ++ bs) = runs cs ++ runs bs := by
    refine runs_append fun a ha b hb' => ?_
    rw [h a ha, hb b (List.mem_of_head? hb')]
    exact Bool.false_eq_true.mp
  rw [words_eq, hruns, List.filter_append, ← words_eq, ← words_eq, words_of_allBlank hb,
    List.append_nil]

/-- The blanks at the ends separate nothing. -/
theorem words_trim (cs : List Char) : words (trim cs) = words cs := by
  have hfront : AllBlank (cs.takeWhile isBlank) := fun c hc => List.mem_takeWhile_imp hc
  have hback : AllBlank ((cs.dropWhile isBlank).rtakeWhile isBlank) :=
    fun c hc => List.mem_rtakeWhile_imp hc
  have hlast : ∀ c ∈ (trim cs).getLast?, isBlank c = false := by
    intro c hc
    have hne : trim cs ≠ [] := by
      rintro hnil
      rw [hnil] at hc
      cases hc
    have hnot : ¬ isBlank ((trim cs).getLast hne) = true :=
      List.rdropWhile_last_not isBlank (cs.dropWhile isBlank) hne
    rw [List.getLast?_eq_some_getLast hne] at hc
    obtain rfl := Option.some.inj hc
    exact Bool.eq_false_iff.mpr hnot
  calc words (trim cs)
      = words (trim cs ++ (cs.dropWhile isBlank).rtakeWhile isBlank) :=
        (words_append_blank hback hlast).symm
    _ = words (cs.dropWhile isBlank) := by rw [trim_eq, List.rdropWhile_append_rtakeWhile]
    _ = words (cs.takeWhile isBlank ++ cs.dropWhile isBlank) :=
        (words_blank_append hfront (head?_dropWhile cs)).symm
    _ = words cs := by rw [List.takeWhile_append_dropWhile]

/-- The first character that is left is the first one that is not blank. -/
theorem head?_trim (cs : List Char) : (trim cs).head? = cs.find? (!isBlank ·) := by
  rw [List.find?_not_eq_head?_dropWhile]
  have hhead := head?_dropWhile cs
  have hsplit := List.rdropWhile_append_rtakeWhile (p := isBlank) (l := cs.dropWhile isBlank)
  have hback : AllBlank ((cs.dropWhile isBlank).rtakeWhile isBlank) :=
    fun c hc => List.mem_rtakeWhile_imp hc
  rw [← trim_eq] at hsplit
  rw [← hsplit] at hhead ⊢
  generalize (cs.dropWhile isBlank).rtakeWhile isBlank = back at hhead hback
  cases htrim : trim cs with
  | cons c rest => rfl
  | nil =>
    -- If nothing is left, the first character that is not blank was cut off as a blank at the end.
    rw [htrim] at hhead
    cases back with
    | nil => rfl
    | cons c back =>
      have hblank := hback c List.mem_cons_self
      rw [hhead c rfl] at hblank
      cases hblank

/-! ## Lines -/

theorem lines_append {line rest : List UInt8} (h : 10 ∉ line) :
    lines (line ++ 10 :: rest) = line :: lines rest := by
  induction line with
  | nil => rfl
  | cons b line ih =>
    rw [List.mem_cons, not_or] at h
    simp only [lines, List.cons_append, List.foldr_cons] at ih ⊢
    rw [if_neg fun hb => h.1 hb.symm, ih h.2]

theorem lines_cons_of_ne {b : UInt8} {rest line : List UInt8} {below : List (List UInt8)}
    (hb : b ≠ 10) (h : lines rest = line :: below) :
    lines (b :: rest) = (b :: line) :: below := by
  simp only [lines, List.foldr_cons] at h ⊢
  rw [if_neg hb, h]

theorem exists_lines_cons (b : UInt8) (rest : List UInt8) :
    ∃ line below, lines (b :: rest) = line :: below := by
  by_cases hb : b = 10
  · rw [hb]
    exact ⟨[], lines rest, rfl⟩
  · cases h : lines rest with
    | nil =>
      simp only [lines, List.foldr_cons] at h ⊢
      rw [if_neg hb, h]
      exact ⟨[b], [], rfl⟩
    | cons line below => exact ⟨b :: line, below, lines_cons_of_ne hb h⟩

/-- A text that ends a line, or has none, has its lines to itself. -/
theorem lines_append_of_ended {front back : List UInt8}
    (h : front = [] ∨ front.getLast? = some 10) :
    lines (front ++ back) = lines front ++ lines back := by
  induction front with
  | nil => rfl
  | cons b front ih =>
    have hlast : (b :: front).getLast? = some 10 := h.resolve_left (List.cons_ne_nil b front)
    cases front with
    | nil =>
      obtain rfl : b = 10 := Option.some.inj hlast
      rfl
    | cons c front =>
      have hfront : lines (c :: front ++ back) = lines (c :: front) ++ lines back := by
        refine ih (.inr ?_)
        rwa [List.getLast?_cons_cons] at hlast
      by_cases hb : b = 10
      · subst hb
        exact congrArg ([] :: ·) hfront
      · obtain ⟨line, below, hlines⟩ := exists_lines_cons c front
        rw [hlines] at hfront
        rw [lines_cons_of_ne hb hlines]
        exact lines_cons_of_ne hb hfront

/-- Any lines at all can stand in a text. -/
theorem lines_flatMap {ls : List (List UInt8)} (h : ∀ line ∈ ls, 10 ∉ line) :
    lines (ls.flatMap (· ++ [10])) = ls := by
  induction ls with
  | nil => rfl
  | cons line ls ih =>
    obtain ⟨hline, hls⟩ := List.forall_mem_cons.mp h
    rw [List.flatMap_cons, List.append_assoc, List.singleton_append, lines_append hline, ih hls]

end VertexEngine.Text
