import VertexEngine.Proofs.Graph.Reading

/-!
# Edge lists that are put together

What is read of two edge lists, one behind the other, follows from what is read of each of them.  A
fault in the first one is the fault of both.  A fault in the second one is found that many lines
further down, and without a fault the edges of the second one come behind those of the first.

* `Reads.append` and `vertexCount_append` are about lines and the edges they list.
* `telling` are the lines that are not skipped, and `reads_telling_iff` says that no others matter.
* `read_append` is the result about two texts.
-/

namespace VertexEngine

/-- The error as it is told if this many lines stand before the text. -/
def EngineError.behind (count : Nat) : EngineError → EngineError
  | .parse line reason => .parse (line + count) reason
  | e => e

namespace EdgeList

variable {limit : Nat} {lines lines' : List (List UInt8)} {records records' : List Record}

theorem LineFault.toError_behind (fault : LineFault) (line count : Nat) :
    (fault.toError line).behind count = fault.toError (line + count) := by
  cases fault with
  | notText | fieldCount | badId | badWeight | infiniteWeight | beyondLimit => rfl

/-! ## Lines and records -/

theorem Reads.append (h : Reads limit lines records) (h' : Reads limit lines' records') :
    Reads limit (lines ++ lines') (records ++ records') := by
  induction h with
  | nil => exact h'
  | cons htells _ ih =>
    rw [List.append_assoc]
    exact .cons htells ih

/-- The larger number decides. -/
theorem vertexCount_append (records records' : List Record) :
    vertexCount (records ++ records') = max (vertexCount records) (vertexCount records') := by
  obtain ⟨hcovers, hlargest⟩ := vertexCount_eq_iff.mp (rfl : vertexCount records = _)
  obtain ⟨hcovers', hlargest'⟩ := vertexCount_eq_iff.mp (rfl : vertexCount records' = _)
  refine vertexCount_eq_iff.mpr ⟨?_, ?_⟩
  · intro r hr
    rcases List.mem_append.mp hr with hr | hr
    · have := hcovers r hr
      omega
    · have := hcovers' r hr
      omega
  · intro hpos
    rcases Nat.le_total (vertexCount records) (vertexCount records') with hle | hle
    · rw [Nat.max_eq_right hle] at hpos ⊢
      obtain ⟨r, hr, h⟩ := hlargest' hpos
      exact ⟨r, List.mem_append_right records hr, h⟩
    · rw [Nat.max_eq_left hle] at hpos ⊢
      obtain ⟨r, hr, h⟩ := hlargest hpos
      exact ⟨r, List.mem_append_left records' hr, h⟩

instance (line : List UInt8) : Decidable (IsSkipped line) :=
  match h : textOf? line with
  | none => isFalse (by
      rintro ⟨cs, hcs, -⟩
      cases h.symm.trans hcs)
  | some cs => decidable_of_iff ((cs.find? (!Text.isBlank ·)).all (· == '#') = true) (by
      have hiff : (cs.find? (!Text.isBlank ·)).all (· == '#') = true ↔
          ∀ c ∈ cs.find? (!Text.isBlank ·), c = '#' := by
        simp [Option.all_eq_true]
      rw [hiff]
      constructor
      · intro hfirst
        exact ⟨cs, h, hfirst⟩
      · rintro ⟨cs', hcs', hfirst⟩
        obtain rfl := Option.some.inj (h.symm.trans hcs')
        exact hfirst)

/-- The lines that are not skipped. -/
def telling (lines : List (List UInt8)) : List (List UInt8) :=
  lines.filter fun line => !decide (IsSkipped line)

/-- The other lines do not matter. -/
theorem reads_telling_iff : Reads limit (telling lines) records ↔ Reads limit lines records := by
  induction lines generalizing records with
  | nil => rfl
  | cons line lines ih =>
    by_cases hskipped : IsSkipped line
    · have htelling : telling (line :: lines) = telling lines := by simp [telling, hskipped]
      rw [htelling, ih]
      constructor
      · intro h
        have htells : Tells limit line none := hskipped
        exact .cons htells h
      · intro h
        cases h with
        | @cons _ _ read _ htells hrest =>
          have hread := (readLine_tells htells).symm.trans (readLine_isSkipped hskipped)
          obtain rfl : read = none := Except.ok.inj hread
          exact hrest
    · have htelling : telling (line :: lines) = line :: telling lines := by
        simp [telling, hskipped]
      rw [htelling]
      constructor
      · rintro (_ | ⟨htells, hrest⟩)
        exact .cons htells (ih.mp hrest)
      · rintro (_ | ⟨htells, hrest⟩)
        exact .cons htells (ih.mpr hrest)

/-! ## Texts -/

section

variable {V : Type} {initial : V} {front back text text' : List UInt8}
  {g : Graph V Float}

/-- The lines that are skipped do not matter for a graph that is read. -/
theorem read_eq_ok_congr (h : telling (Text.lines text) = telling (Text.lines text')) :
    read initial limit text = .ok g ↔ read initial limit text' = .ok g := by
  have hreads : ∀ records, Reads (bound limit) (Text.lines text) records ↔
      Reads (bound limit) (Text.lines text') records := by
    intro records
    rw [← reads_telling_iff, h, reads_telling_iff]
  simp only [read_eq_ok, hreads]

theorem Listed.vertexCount_eq (h : Listed initial records g) :
    g.vertexCount = vertexCount records :=
  (vertexCount_eq_iff.mpr ⟨h.covers, h.largest⟩).symm

/-! ## Two texts -/

section

variable (hsplit : Text.lines (front ++ back) = Text.lines front ++ Text.lines back)

include hsplit

/-- The first fault of the front text is the first one of both. -/
theorem read_append_of_front {before after : List (List UInt8)} {line : List UInt8}
    {fault : LineFault} (hlines : Text.lines front = before ++ line :: after)
    (hbefore : ∃ records, Reads (bound limit) before records)
    (hline : Offends (bound limit) line fault) :
    read initial limit (front ++ back) = .error (fault.toError (before.length + 1)) := by
  have hboth : Text.lines (front ++ back) = before ++ line :: (after ++ Text.lines back) := by
    rw [hsplit, hlines, List.append_assoc, List.cons_append]
  exact read_offends initial hboth hbefore hline

/-- If the front text has no fault, the first fault of the back text is the first one of both. -/
theorem read_append_of_back (hfront : Reads (bound limit) (Text.lines front) records)
    {before after : List (List UInt8)} {line : List UInt8} {fault : LineFault}
    (hlines : Text.lines back = before ++ line :: after)
    (hbefore : ∃ records, Reads (bound limit) before records)
    (hline : Offends (bound limit) line fault) :
    read initial limit (front ++ back) =
      .error ((fault.toError (before.length + 1)).behind (Text.lines front).length) := by
  have hboth : Text.lines (front ++ back) = (Text.lines front ++ before) ++ line :: after := by
    rw [hsplit, hlines, List.append_assoc]
  obtain ⟨records', hbefore⟩ := hbefore
  rw [read_offends initial hboth ⟨_, hfront.append hbefore⟩ hline, LineFault.toError_behind,
    List.length_append]
  congr 2
  omega

theorem read_append_of_full (hfront : Reads (bound limit) (Text.lines front) records)
    (hback : Reads (bound limit) (Text.lines back) records')
    (hfull : Graph.maxEdges < records.length + records'.length) :
    read initial limit (front ++ back) = .error (.graphFull Graph.maxEdges) := by
  refine read_full initial (hsplit ▸ hfront.append hback) ?_
  rwa [List.length_append]

/-- Without a fault the edges of the back text come behind those of the front text. -/
theorem read_append_of_fits (hfront : Reads (bound limit) (Text.lines front) records)
    (hback : Reads (bound limit) (Text.lines back) records')
    (hfits : records.length + records'.length ≤ Graph.maxEdges) :
    ∃ g, read initial limit (front ++ back) = .ok g ∧ Listed initial (records ++ records') g ∧
      g.vertexCount = max (vertexCount records) (vertexCount records') := by
  have hboth : Reads (bound limit) (Text.lines (front ++ back)) (records ++ records') :=
    hsplit ▸ hfront.append hback
  obtain ⟨g, hg, hiff⟩ := read_fits initial hboth (by rwa [List.length_append])
  have hlisted : Listed initial (records ++ records') g := (hiff g).mpr rfl
  exact ⟨g, hg, hlisted, hlisted.vertexCount_eq.trans (vertexCount_append records records')⟩

end

/-- Of a text that ends a line, and a text behind it: the first fault of the one in front is the
fault of both; if it has none, a fault of the other one is told with the lines in front counted in;
and if neither has one, the edges come in the order of the texts, and there are as many vertices as
in the larger graph, unless there are more than `Graph.maxEdges` edges.  Lines that are skipped
never matter for a graph that is read.  More edges than that in front are noticed only after a fault
behind them. -/
theorem read_append (initial : V) (limit : Nat) (h : front = [] ∨ front.getLast? = some 10)
    (back : List UInt8) :
    (∀ e, read initial limit front = .error e → read initial limit (front ++ back) = .error e ∨
      e = .graphFull Graph.maxEdges ∧ Graph.maxEdges < (Text.lines front).length ∧
        ∃ e', read initial limit back = .error e' ∧ e' ≠ e ∧
          read initial limit (front ++ back) = .error (e'.behind (Text.lines front).length)) ∧
    (∀ a e, read initial limit front = .ok a → read initial limit back = .error e →
      read initial limit (front ++ back) = .error (e.behind (Text.lines front).length)) ∧
    (∀ a b, read initial limit front = .ok a → read initial limit back = .ok b →
      if a.edgeCount + b.edgeCount ≤ Graph.maxEdges then
        ∃ g, read initial limit (front ++ back) = .ok g ∧
          Listed initial (a.edges.toList ++ b.edges.toList) g ∧
          g.vertexCount = max a.vertexCount b.vertexCount
      else read initial limit (front ++ back) = .error (.graphFull Graph.maxEdges)) ∧
    ∀ text text' : List UInt8, telling (Text.lines text) = telling (Text.lines text') →
      ∀ g : Graph V Float, read initial limit text = .ok g ↔ read initial limit text' = .ok g := by
  have hsplit : Text.lines (front ++ back) = Text.lines front ++ Text.lines back :=
    Text.lines_append_of_ended h
  refine ⟨?_, ?_, ?_, fun text text' htelling g => read_eq_ok_congr htelling⟩
  · intro e he
    cases read_eq_iff.mp he with
    | offends hlines hbefore hline => exact .inl (read_append_of_front hsplit hlines hbefore hline)
    | full hreads hfull =>
      -- The edges are counted last, so what is behind them decides.
      cases hback : read initial limit back with
      | ok b =>
        obtain ⟨records', hreads', -⟩ := read_eq_ok.mp hback
        exact .inl (read_append_of_full hsplit hreads hreads' (by omega))
      | error e' =>
        cases read_eq_iff.mp hback with
        | @offends before _ _ fault hlines hbefore hline =>
          have hne : fault.toError (before.length + 1) ≠ .graphFull Graph.maxEdges := by
            rcases hline.toError (before.length + 1) with ⟨-, hreason⟩ | ⟨-, _, hreason⟩
            · rw [hreason]
              nofun
            · rw [hreason]
              nofun
          exact .inr ⟨rfl, Nat.lt_of_lt_of_le hfull hreads.length_le, _, rfl, hne,
            read_append_of_back hsplit hreads hlines hbefore hline⟩
        | full hreads' _ => exact .inl (read_append_of_full hsplit hreads hreads' (by omega))
  · intro a e ha he
    obtain ⟨records, hreads, -⟩ := read_eq_ok.mp ha
    cases read_eq_iff.mp he with
    | offends hlines hbefore hline => exact read_append_of_back hsplit hreads hlines hbefore hline
    | full hreads' hfull => exact read_append_of_full hsplit hreads hreads' (by omega)
  · intro a b ha hb
    obtain ⟨records, hreads, -, hlisted⟩ := read_eq_ok.mp ha
    obtain ⟨records', hreads', -, hlisted'⟩ := read_eq_ok.mp hb
    have hedges : a.edgeCount = records.length := by rw [← hlisted.edges]; rfl
    have hedges' : b.edgeCount = records'.length := by rw [← hlisted'.edges]; rfl
    rw [hlisted.edges, hlisted'.edges, hedges, hedges', hlisted.vertexCount_eq,
      hlisted'.vertexCount_eq]
    split
    · rename_i hfits
      exact read_append_of_fits hsplit hreads hreads' hfits
    · rename_i hfull
      exact read_append_of_full hsplit hreads hreads' (Nat.lt_of_not_le hfull)

/-- A comment and a blank line, and a line with two fields behind them, which is the third one. -/
theorem read_append_shortLine :
    ([35, 10, 32, 10] : List UInt8).getLast? = some 10 ∧
      read 7 10 ([35, 10, 32, 10] ++ [48, 32, 49, 10]) =
        .error ((LineFault.fieldCount 2).toError 3) := by
  have hfront : read 7 10 [35, 10, 32, 10] = .ok {} := rfl
  have hback : read 7 10 [48, 32, 49, 10] = .error ((LineFault.fieldCount 2).toError 1) := rfl
  have hended : ([35, 10, 32, 10] : List UInt8).getLast? = some 10 := rfl
  obtain ⟨-, hshifted, -⟩ := read_append 7 10 (.inr hended) [48, 32, 49, 10]
  exact ⟨hended, hshifted {} _ hfront hback⟩

/-! ### More edges than there are numbers for -/

theorem ended_loops (n : Nat) : loops n = [] ∨ (loops n).getLast? = some 10 := by
  cases n with
  | zero => exact .inl rfl
  | succ n =>
    refine .inr ?_
    rw [loops, List.replicate_succ', List.flatMap_append, List.flatMap_singleton,
      ← List.append_assoc, List.getLast?_concat]

/-- One edge too many in front is told only if no line behind it offends; two texts that are read
may have too many edges together; and a comment that is no text is no comment. -/
theorem append_of_full :
    (read 0 1 (loops (Graph.maxEdges + 1)) = .error (.graphFull Graph.maxEdges) ∧
      read 0 1 (loops (Graph.maxEdges + 1) ++ [48]) =
        .error ((LineFault.fieldCount 1).toError (Graph.maxEdges + 2))) ∧
      (∃ g g', read 0 1 (loops Graph.maxEdges) = .ok g ∧ read 0 1 (loops 1) = .ok g' ∧
        read 0 1 (loops Graph.maxEdges ++ loops 1) = .error (.graphFull Graph.maxEdges)) ∧
      read 0 1 [] = .ok {} ∧
      read 0 1 [35, 255] = .error (.io "stream did not contain valid UTF-8") := by
  have hsplit : ∀ n back, Text.lines (loops n ++ back) = Text.lines (loops n) ++ Text.lines back :=
    fun n _ => Text.lines_append_of_ended (ended_loops n)
  have hshort : HasFields [48] [['0']] := hasFields_of_zero ['0'] rfl rfl rfl
  refine ⟨⟨read_loops_full (Nat.lt_succ_self _), ?_⟩, ?_, rfl, rfl⟩
  · have hlines : Text.lines [48] = [] ++ [48] :: [] := rfl
    rw [read_append_of_back (hsplit _ _) (reads_loops _) hlines ⟨[], .nil⟩
      (.fieldCount hshort (by decide)), LineFault.toError_behind, lines_loops,
      List.length_replicate, List.length_nil, Nat.zero_add, Nat.add_comm 1]
    rfl
  · obtain ⟨g, hg, -⟩ := read_fits 0 (reads_loops Graph.maxEdges) (by rw [List.length_replicate])
    obtain ⟨g', hg', -⟩ := read_fits 0 (reads_loops 1) (by decide)
    refine ⟨g, g', hg, hg', read_append_of_full (hsplit _ _) (reads_loops _) (reads_loops 1) ?_⟩
    rw [List.length_replicate]
    exact Nat.lt_succ_self _

end

end EdgeList

end VertexEngine
