import VertexEngine.Graph.EdgeList
import VertexEngine.Proofs.Graph.Adjacency
import VertexEngine.Proofs.Text.Words

/-!
# What an edge list says

The format of an edge list, told without the functions that read it, and the graph it describes.

* A line `IsSkipped`, or it `Lists` one edge, or it `Offends`, and then for one reason.
  `readLine_tells` and `readLine_offends` say that this is what is read.
* `Reads` goes over all the lines.
* `Listed` is the graph with the listed edges, added to it one by one.
* `Reading` is what reading a text comes to, case by case, and `reads_exactly` puts these together.
-/

namespace VertexEngine

namespace Decimal

/-! ## Natural numbers -/

/-- More digits never make a number smaller. -/
theorem le_foldl_digits (ds : List Char) (v : Nat) :
    v ≤ ds.foldl (fun n d => 10 * n + (d.toNat - '0'.toNat)) v := by
  induction ds generalizing v with
  | nil => exact Nat.le_refl v
  | cons d rest ih =>
    rw [List.foldl_cons]
    have := ih (10 * v + (d.toNat - '0'.toNat))
    omega

theorem readDigits_cons_eq_ok {bound v n : Nat} {d : Char} {rest : List Char} :
    readDigits bound v (d :: rest) = .ok n ↔ (∀ c ∈ d :: rest, c.isDigit = true) ∧
      (d :: rest).foldl (fun n d => 10 * n + (d.toNat - '0'.toNat)) v = n ∧ n < bound := by
  induction rest generalizing v d with
  | nil =>
    simp only [readDigits, List.forall_mem_singleton, List.foldl_cons, List.foldl_nil]
    split
    · split
      · simp_all
        rintro rfl
        assumption
      · simp_all
        omega
    · simp_all
  | cons d' rest ih =>
    have hle := le_foldl_digits (d' :: rest) (10 * v + (d.toNat - '0'.toNat))
    rw [readDigits, List.forall_mem_cons, List.foldl_cons]
    split
    · rename_i hd
      simp only [hd, true_and]
      split
      · exact ih
      · refine ⟨nofun, ?_⟩
        rintro ⟨-, rfl, hlt⟩
        omega
    · rename_i hd
      refine ⟨nofun, ?_⟩
      rintro ⟨⟨hd', -⟩, -⟩
      exact absurd hd' hd

/-- A natural number below a bound is digits, perhaps with a plus sign before them. -/
theorem readNat_eq_ok {bound n : Nat} {cs : List Char} :
    readNat bound cs = .ok n ↔ ∃ ds, (cs = ds ∨ cs = '+' :: ds) ∧ ds ≠ [] ∧
      (∀ d ∈ ds, d.isDigit = true) ∧ ofDigits ds = n ∧ n < bound := by
  unfold readNat
  split
  · refine ⟨nofun, ?_⟩
    rintro ⟨ds, rfl | h, hne, -⟩
    · exact absurd rfl hne
    · cases h
  · rename_i c rest
    rw [readDigits_cons_eq_ok]
    constructor
    · rintro ⟨hd, hn, hlt⟩
      exact ⟨c :: rest, .inr rfl, List.cons_ne_nil _ _, hd, hn, hlt⟩
    · rintro ⟨ds, rfl | h, -, hd, hn, hlt⟩
      · exact absurd (hd '+' List.mem_cons_self) (by decide)
      · cases h
        exact ⟨hd, hn, hlt⟩
  · rename_i c rest hplus
    rw [readDigits_cons_eq_ok]
    constructor
    · rintro ⟨hd, hn, hlt⟩
      exact ⟨c :: rest, .inl rfl, List.cons_ne_nil _ _, hd, hn, hlt⟩
    · rintro ⟨ds, rfl | h, hne, hd, hn, hlt⟩
      · exact ⟨hd, hn, hlt⟩
      · cases h
        obtain ⟨d, ds, rfl⟩ := List.exists_cons_of_ne_nil hne
        exact absurd rfl (hplus d ds rfl)

end Decimal

namespace EdgeList

variable {limit : Nat} {line : List UInt8} {r : Record}

/-! ## One line -/

/-- The characters of a line, if its bytes are UTF-8. -/
def textOf? (line : List UInt8) : Option (List Char) :=
  (String.fromUTF8? (ByteArray.mk line.toArray)).map String.toList

/-- Nothing but blanks, or behind the blanks a `#`. -/
def IsSkipped (line : List UInt8) : Prop :=
  ∃ cs, textOf? line = some cs ∧ ∀ c, cs.find? (!Text.isBlank ·) = some c → c = '#'

/-- A line that is not skipped, and the fields on it. -/
def HasFields (line : List UInt8) (fields : List (List Char)) : Prop :=
  ∃ cs, textOf? line = some cs ∧ (∃ c, cs.find? (!Text.isBlank ·) = some c ∧ c ≠ '#') ∧
    Text.Spaced cs fields

/-- A field that names a vertex, in 32 bits. -/
def NamesId (field : List Char) (id : VertexId) : Prop :=
  Decimal.readNat UInt32.size field = .ok id.toNat

/-- A line with one edge on it: its endpoints below the limit and a finite weight. -/
structure Lists (limit : Nat) (line : List UInt8) (r : Record) : Prop where
  fields : ∃ source target weight, HasFields line [source, target, weight] ∧
    NamesId source r.source ∧ NamesId target r.target ∧ Decimal.readFloat? weight = some r.data
  finite : r.data.isFinite = true
  source_lt : r.source.toNat < limit
  target_lt : r.target.toNat < limit

/-- What a line says: nothing if it is skipped, or else one edge. -/
def Tells (limit : Nat) (line : List UInt8) : Option Record → Prop
  | none => IsSkipped line
  | some r => Lists limit line r

/-- What is wrong with a line: the first of the checks that it fails. -/
inductive Offends (limit : Nat) (line : List UInt8) : LineFault → Prop
  | notText (h : textOf? line = none) : Offends limit line .notText
  | fieldCount {fields : List (List Char)} (h : HasFields line fields) (hn : fields.length ≠ 3) :
    Offends limit line (.fieldCount fields.length)
  | source {s t w : List Char} {fault : Decimal.NatFault} (h : HasFields line [s, t, w])
    (hs : Decimal.readNat UInt32.size s = .error fault) :
    Offends limit line (.badId .source (String.ofList s) fault)
  | target {s t w : List Char} {source : VertexId} {fault : Decimal.NatFault}
    (h : HasFields line [s, t, w]) (hs : NamesId s source)
    (ht : Decimal.readNat UInt32.size t = .error fault) :
    Offends limit line (.badId .target (String.ofList t) fault)
  | weight {s t w : List Char} {source target : VertexId} (h : HasFields line [s, t, w])
    (hs : NamesId s source) (ht : NamesId t target) (hw : Decimal.readFloat? w = none) :
    Offends limit line (.badWeight (String.ofList w))
  | infinite {s t w : List Char} {source target : VertexId} {x : Float}
    (h : HasFields line [s, t, w]) (hs : NamesId s source) (ht : NamesId t target)
    (hw : Decimal.readFloat? w = some x) (hx : x.isFinite = false) :
    Offends limit line (.infiniteWeight x)
  | sourceLimit {s t w : List Char} {source target : VertexId} {x : Float}
    (h : HasFields line [s, t, w]) (hs : NamesId s source) (ht : NamesId t target)
    (hw : Decimal.readFloat? w = some x) (hx : x.isFinite = true) (hsl : limit ≤ source.toNat) :
    Offends limit line (.beyondLimit source limit)
  | targetLimit {s t w : List Char} {source target : VertexId} {x : Float}
    (h : HasFields line [s, t, w]) (hs : NamesId s source) (ht : NamesId t target)
    (hw : Decimal.readFloat? w = some x) (hx : x.isFinite = true) (hsl : source.toNat < limit)
    (htl : limit ≤ target.toNat) : Offends limit line (.beyondLimit target limit)

theorem readLine_notText (h : textOf? line = none) : readLine limit line = .error .notText := by
  rw [readLine, Option.map_eq_none_iff.mp h]

theorem readLine_isSkipped (h : IsSkipped line) : readLine limit line = .ok none := by
  obtain ⟨cs, hcs, hfirst⟩ := h
  obtain ⟨text, htext, rfl⟩ := Option.map_eq_some_iff.mp hcs
  rw [← Text.head?_trim] at hfirst
  rw [readLine, htext]
  dsimp only
  split
  · rfl
  · rfl
  · rename_i hnil hhash
    obtain ⟨c, rest, htrim⟩ := List.exists_cons_of_ne_nil hnil
    obtain rfl := hfirst c (by rw [htrim]; rfl)
    exact absurd htrim (hhash rest)

theorem readLine_hasFields (limit : Nat) {fields : List (List Char)} (h : HasFields line fields) :
    ∃ trimmed, Text.words trimmed = fields ∧
      readLine limit line = some <$> readRecord limit trimmed := by
  obtain ⟨cs, hcs, ⟨c, hfirst, hc⟩, hfields⟩ := h
  obtain ⟨text, htext, rfl⟩ := Option.map_eq_some_iff.mp hcs
  rw [← Text.head?_trim] at hfirst
  refine ⟨Text.trim text.toList, by rw [Text.words_trim, hfields.words_eq], ?_⟩
  rw [readLine, htext]
  dsimp only
  split
  · rename_i hnil
    rw [hnil] at hfirst
    cases hfirst
  · rename_i hhash
    rw [hhash] at hfirst
    exact absurd (Option.some.inj hfirst).symm hc
  · rfl

/-- A line is not text, or it is skipped, or there are fields on it. -/
theorem line_cases (line : List UInt8) :
    textOf? line = none ∨ IsSkipped line ∨ ∃ fields, HasFields line fields := by
  cases htext : textOf? line with
  | none => exact .inl rfl
  | some cs =>
    cases hfirst : cs.find? (!Text.isBlank ·) with
    | none => exact .inr (.inl ⟨cs, htext, fun c hc => by rw [hfirst] at hc; cases hc⟩)
    | some c =>
      by_cases hc : c = '#'
      · subst hc
        refine .inr (.inl ⟨cs, htext, fun c hc => ?_⟩)
        exact (Option.some.inj (hfirst.symm.trans hc)).symm
      · obtain ⟨fields, hfields⟩ := Text.exists_spaced cs
        exact .inr (.inr ⟨fields, cs, htext, ⟨c, hfirst, hc⟩, hfields⟩)

/-! ## The checks on a line with fields -/

theorem readRecord_three {s t w trimmed : List Char} (h : Text.words trimmed = [s, t, w]) :
    readRecord limit trimmed = (do
      let source ← readId .source s
      let target ← readId .target t
      let weight ← readWeight w
      checkLimit limit source
      checkLimit limit target
      return ⟨source, target, weight⟩) := by
  rw [readRecord, h]

theorem readRecord_count {fields : List (List Char)} {trimmed : List Char}
    (h : Text.words trimmed = fields) (hn : fields.length ≠ 3) :
    readRecord limit trimmed = .error (.fieldCount fields.length) := by
  rw [readRecord, h]
  split
  · exact absurd rfl hn
  · rfl

theorem readId_ok {endpoint : Endpoint} {field : List Char} {id : VertexId} (h : NamesId field id) :
    readId endpoint field = .ok id := by
  rw [readId, h]
  exact congrArg Except.ok (UInt32.ofNat_toNat)

theorem readId_error {endpoint : Endpoint} {field : List Char} {fault : Decimal.NatFault}
    (h : Decimal.readNat UInt32.size field = .error fault) :
    readId endpoint field = .error (.badId endpoint (String.ofList field) fault) := by
  rw [readId, h]

/-- A field names a vertex, or it is no natural number in 32 bits. -/
theorem namesId_or (field : List Char) :
    (∃ id, NamesId field id) ∨ ∃ fault, Decimal.readNat UInt32.size field = .error fault := by
  cases h : Decimal.readNat UInt32.size field with
  | error fault => exact .inr ⟨fault, rfl⟩
  | ok n =>
    obtain ⟨-, -, -, -, -, hlt⟩ := Decimal.readNat_eq_ok.mp h
    refine .inl ⟨UInt32.ofNat n, ?_⟩
    rw [NamesId, h, UInt32.toNat_ofNat_of_lt' hlt]

theorem readWeight_ok {field : List Char} {x : Float} (h : Decimal.readFloat? field = some x)
    (hx : x.isFinite = true) : readWeight field = .ok x := by
  rw [readWeight, h]
  exact if_pos hx

theorem checkLimit_ok {id : VertexId} (h : id.toNat < limit) : checkLimit limit id = .ok () :=
  if_pos h

theorem checkLimit_error {id : VertexId} (h : limit ≤ id.toNat) :
    checkLimit limit id = .error (.beyondLimit id limit) :=
  if_neg (Nat.not_lt_of_le h)

theorem readLine_lists (h : Lists limit line r) : readLine limit line = .ok (some r) := by
  obtain ⟨s, t, w, hfields, hs, ht, hw⟩ := h.fields
  obtain ⟨trimmed, hwords, hline⟩ := readLine_hasFields limit hfields
  rw [hline, readRecord_three hwords]
  simp only [bind, Except.bind, readId_ok hs, readId_ok ht, readWeight_ok hw h.finite,
    checkLimit_ok h.source_lt, checkLimit_ok h.target_lt]
  rfl

theorem readLine_tells {read : Option Record} (h : Tells limit line read) :
    readLine limit line = .ok read := by
  cases read with
  | none => exact readLine_isSkipped h
  | some r => exact readLine_lists h

theorem readLine_offends {fault : LineFault} (h : Offends limit line fault) :
    readLine limit line = .error fault := by
  cases h with
  | notText h => exact readLine_notText h
  | fieldCount h hn =>
    obtain ⟨trimmed, hwords, hline⟩ := readLine_hasFields limit h
    rw [hline, readRecord_count hwords hn]
    rfl
  | source h hs =>
    obtain ⟨trimmed, hwords, hline⟩ := readLine_hasFields limit h
    rw [hline, readRecord_three hwords, readId_error hs]
    rfl
  | target h hs ht =>
    obtain ⟨trimmed, hwords, hline⟩ := readLine_hasFields limit h
    rw [hline, readRecord_three hwords, readId_ok hs, readId_error ht]
    rfl
  | weight h hs ht hw =>
    obtain ⟨trimmed, hwords, hline⟩ := readLine_hasFields limit h
    rw [hline, readRecord_three hwords, readId_ok hs, readId_ok ht, readWeight, hw]
    rfl
  | infinite h hs ht hw hx =>
    obtain ⟨trimmed, hwords, hline⟩ := readLine_hasFields limit h
    rw [hline, readRecord_three hwords, readId_ok hs, readId_ok ht, readWeight, hw]
    dsimp only
    rw [hx]
    rfl
  | sourceLimit h hs ht hw hx hsl =>
    obtain ⟨trimmed, hwords, hline⟩ := readLine_hasFields limit h
    rw [hline, readRecord_three hwords]
    simp only [bind, Except.bind, readId_ok hs, readId_ok ht, readWeight_ok hw hx,
      checkLimit_error hsl]
    rfl
  | targetLimit h hs ht hw hx hsl htl =>
    obtain ⟨trimmed, hwords, hline⟩ := readLine_hasFields limit h
    rw [hline, readRecord_three hwords]
    simp only [bind, Except.bind, readId_ok hs, readId_ok ht, readWeight_ok hw hx,
      checkLimit_ok hsl, checkLimit_error htl]
    rfl

/-- There is no other way for a line to be. -/
theorem tells_or_offends (limit : Nat) (line : List UInt8) :
    (∃ read, Tells limit line read) ∨ ∃ fault, Offends limit line fault := by
  rcases line_cases line with h | h | ⟨fields, h⟩
  · exact .inr ⟨_, .notText h⟩
  · exact .inl ⟨none, h⟩
  by_cases hn : fields.length = 3
  case neg => exact .inr ⟨_, .fieldCount h hn⟩
  obtain ⟨s, t, w, rfl⟩ := List.length_eq_three.mp hn
  rcases namesId_or s with ⟨source, hs⟩ | ⟨fault, hs⟩
  case inr => exact .inr ⟨_, .source h hs⟩
  rcases namesId_or t with ⟨target, ht⟩ | ⟨fault, ht⟩
  case inr => exact .inr ⟨_, .target h hs ht⟩
  cases hw : Decimal.readFloat? w with
  | none => exact .inr ⟨_, .weight h hs ht hw⟩
  | some x =>
    cases hx : x.isFinite with
    | false => exact .inr ⟨_, .infinite h hs ht hw hx⟩
    | true =>
      rcases Nat.lt_or_ge source.toNat limit with hsl | hsl
      case inr => exact .inr ⟨_, .sourceLimit h hs ht hw hx hsl⟩
      rcases Nat.lt_or_ge target.toNat limit with htl | htl
      case inr => exact .inr ⟨_, .targetLimit h hs ht hw hx hsl htl⟩
      exact .inl ⟨some ⟨source, target, x⟩, ⟨s, t, w, h, hs, ht, hw⟩, hx, hsl, htl⟩

/-! ## All lines -/

/-- Lines none of which offends, and the edges they list. -/
inductive Reads (limit : Nat) : List (List UInt8) → List Record → Prop
  | nil : Reads limit [] []
  | cons {line : List UInt8} {lines : List (List UInt8)} {read : Option Record}
    {records : List Record} (h : Tells limit line read) (rest : Reads limit lines records) :
    Reads limit (line :: lines) (read.toList ++ records)

variable {first : Nat} {lines : List (List UInt8)} {records : List Record} {e : EngineError}

theorem exists_reads_iff : (∃ records, Reads limit lines records) ↔
    ∀ line ∈ lines, IsSkipped line ∨ ∃ r, Lists limit line r := by
  induction lines with
  | nil => exact ⟨fun _ => List.forall_mem_nil _, fun _ => ⟨[], .nil⟩⟩
  | cons line lines ih =>
    rw [List.forall_mem_cons, ← ih]
    constructor
    · rintro ⟨_, _ | @⟨_, _, read, records, h, rest⟩⟩
      refine ⟨?_, records, rest⟩
      cases read with
      | none => exact .inl h
      | some r => exact .inr ⟨r, h⟩
    · rintro ⟨h | ⟨r, h⟩, records, rest⟩
      · have htells : Tells limit line none := h
        exact ⟨_, .cons htells rest⟩
      · have htells : Tells limit line (some r) := h
        exact ⟨_, .cons htells rest⟩

/-- A line with its number. -/
def readNumbered (limit : Nat) : List UInt8 × Nat → Except EngineError (Option Record) :=
  fun (line, number) => (readLine limit line).mapError (·.toError number)

/-- The lines are read one after the other. -/
theorem readLines_cons (limit first : Nat) (line : List UInt8) (lines : List (List UInt8)) :
    readLines limit first (line :: lines) =
      match readLine limit line with
      | .error fault => .error (fault.toError first)
      | .ok read =>
        match readLines limit (first + 1) lines with
        | .error e => .error e
        | .ok records => .ok (read.toList ++ records) := by
  have hread : ∀ first lines, readLines limit first lines =
      (do return (← (lines.zipIdx first).mapM (readNumbered limit)).filterMap id) :=
    fun _ _ => rfl
  rw [hread, hread, List.zipIdx_cons, List.mapM_cons]
  have hline : readNumbered limit (line, first) =
      (readLine limit line).mapError (·.toError first) := rfl
  rw [hline]
  cases readLine limit line with
  | error fault => rfl
  | ok r =>
    cases (lines.zipIdx (first + 1)).mapM (readNumbered limit) with
    | error e => rfl
    | ok rest =>
      cases r with
      | none => rfl
      | some r => rfl

theorem readLines_eq_ok :
    readLines limit first lines = .ok records ↔ Reads limit lines records := by
  induction lines generalizing first records with
  | nil =>
    constructor
    · intro h
      cases h
      exact .nil
    · rintro ⟨⟩
      rfl
  | cons line lines ih =>
    rw [readLines_cons]
    constructor
    · intro h
      rcases tells_or_offends limit line with ⟨read, htells⟩ | ⟨fault, hoffends⟩
      · rw [readLine_tells htells] at h
        cases hrest : readLines limit (first + 1) lines with
        | error e =>
          rw [hrest] at h
          cases h
        | ok rest =>
          rw [hrest] at h
          cases h
          exact .cons htells (ih.mp hrest)
      · rw [readLine_offends hoffends] at h
        cases h
    · rintro (_ | ⟨htells, hrest⟩)
      rw [readLine_tells htells, ih.mpr hrest]

/-- The first line that offends decides about the error, which names it. -/
theorem readLines_eq_error : readLines limit first lines = .error e ↔
    ∃ before line after fault, lines = before ++ line :: after ∧
      (∃ records, Reads limit before records) ∧ Offends limit line fault ∧
      e = fault.toError (first + before.length) := by
  induction lines generalizing first with
  | nil =>
    refine ⟨nofun, ?_⟩
    rintro ⟨before, line, after, fault, hlines, -⟩
    exact absurd hlines.symm (List.append_ne_nil_of_right_ne_nil _ (List.cons_ne_nil _ _))
  | cons line lines ih =>
    have hnumber : ∀ before : List (List UInt8),
        first + 1 + before.length = first + (line :: before).length := by
      intro before
      rw [List.length_cons]
      omega
    rw [readLines_cons]
    constructor
    · intro h
      rcases tells_or_offends limit line with ⟨read, htells⟩ | ⟨fault, hoffends⟩
      · rw [readLine_tells htells] at h
        cases hrest : readLines limit (first + 1) lines with
        | ok rest =>
          rw [hrest] at h
          cases h
        | error e' =>
          rw [hrest] at h
          cases h
          obtain ⟨before, bad, after, fault, rfl, ⟨records, hbefore⟩, hbad, rfl⟩ := ih.mp hrest
          exact ⟨line :: before, bad, after, fault, rfl, ⟨_, .cons htells hbefore⟩, hbad,
            congrArg fault.toError (hnumber before)⟩
      · rw [readLine_offends hoffends] at h
        cases h
        exact ⟨[], line, lines, fault, rfl, ⟨[], .nil⟩, hoffends, rfl⟩
    · rintro ⟨before, bad, after, fault, hlines, ⟨records, hbefore⟩, hbad, rfl⟩
      cases hbefore with
      | nil =>
        cases hlines
        rw [readLine_offends hbad]
        rfl
      | @cons _ before read records htells hbefore =>
        cases hlines
        rw [readLine_tells htells, ih.mpr ⟨before, bad, after, fault, rfl, ⟨records, hbefore⟩, hbad,
          congrArg fault.toError (hnumber before).symm⟩]

/-! ## The graph -/

/-- Adding the edge of a record. -/
def addition {V : Type} (r : Record) : Graph.Operation V Float :=
  .addEdge r.source r.target r.data

/-- The graph that records describe: one vertex more than the largest number in them, or none, with
the same value at all of them; the edges as they are listed; and nothing but what adding the
vertices and then the edges, one by one, makes of an empty graph. -/
structure Listed {V : Type} (initial : V) (records : List Record) (g : Graph V Float) : Prop where
  values : g.values = Array.replicate g.vertexCount initial
  covers : ∀ r ∈ records, r.source.toNat < g.vertexCount ∧ r.target.toNat < g.vertexCount
  largest : 0 < g.vertexCount →
    ∃ r ∈ records, r.source.toNat + 1 = g.vertexCount ∨ r.target.toNat + 1 = g.vertexCount
  edges : g.edges.toList = records
  oneByOne : g = Graph.after {} (List.replicate g.vertexCount (.addVertex initial) ++
    records.map addition)

theorem foldl_covers (records : List Record) (n : Nat) :
    let m := records.foldl (fun n r => max n (max r.source.toNat r.target.toNat + 1)) n
    n ≤ m ∧ (∀ r ∈ records, r.source.toNat < m ∧ r.target.toNat < m) ∧
      (m = n ∨ ∃ r ∈ records, r.source.toNat + 1 = m ∨ r.target.toNat + 1 = m) := by
  induction records generalizing n with
  | nil => exact ⟨Nat.le_refl n, List.forall_mem_nil _, .inl rfl⟩
  | cons r records ih =>
    obtain ⟨hle, hcovers, hlargest⟩ := ih (max n (max r.source.toNat r.target.toNat + 1))
    simp only [List.foldl_cons, List.forall_mem_cons, List.exists_mem_cons_iff]
    generalize records.foldl _ _ = m at hle hcovers hlargest
    rcases hlargest with h | h
    · exact ⟨by omega, ⟨by omega, hcovers⟩, by omega⟩
    · exact ⟨by omega, ⟨by omega, hcovers⟩, .inr (.inr h)⟩

/-- The largest number that is mentioned decides about the number of vertices. -/
theorem vertexCount_eq_iff {n : Nat} : vertexCount records = n ↔
    (∀ r ∈ records, r.source.toNat < n ∧ r.target.toNat < n) ∧
      (0 < n → ∃ r ∈ records, r.source.toNat + 1 = n ∨ r.target.toNat + 1 = n) := by
  obtain ⟨-, hcovers, hlargest⟩ := foldl_covers records 0
  constructor
  · rintro rfl
    exact ⟨hcovers, fun hpos => hlargest.resolve_left (Nat.ne_of_gt hpos)⟩
  · rintro ⟨hcovers', hlargest'⟩
    have hle : n ≤ vertexCount records := by
      rcases Nat.eq_zero_or_pos n with rfl | hpos
      · exact Nat.zero_le _
      · obtain ⟨r, hr, h⟩ := hlargest' hpos
        have : r.source.toNat < vertexCount records ∧ r.target.toNat < vertexCount records :=
          hcovers r hr
        omega
    have hge : vertexCount records ≤ n := by
      rcases hlargest with h | ⟨r, hr, h⟩
      · exact Nat.le_trans (Nat.le_of_eq h) (Nat.zero_le n)
      · have := hcovers' r hr
        rw [vertexCount]
        omega
    exact Nat.le_antisymm hge hle

section

variable {V : Type} {initial : V} {g : Graph V Float}

/-- The loop that adds the edges of records. -/
def addAll (records : List Record) : Graph.Edit V Float Unit := do
  for r in records do
    let _ ← Graph.addEdge r.source r.target r.data

theorem addAll_cons (r : Record) (records : List Record) :
    (addAll (r :: records) : Graph.Edit V Float Unit) = (do
      let _ ← Graph.addEdge r.source r.target r.data
      addAll records) := by
  simp [addAll]

theorem run_addEdge_fits (r : Record) (hs : g.contains r.source = true)
    (ht : g.contains r.target = true) (hfits : g.edgeCount < Graph.maxEdges) :
    (Graph.addEdge r.source r.target r.data : Graph.Edit V Float EdgeId).run g =
      (.ok (UInt32.ofNat g.edgeCount), g.withEdge r.source r.target r.data) :=
  g.addEdge_eq_ok.mpr ⟨⟨hs, ht, hfits⟩, rfl, rfl⟩

theorem after_addition (r : Record) (ops : List (Graph.Operation V Float))
    (hs : g.contains r.source = true) (ht : g.contains r.target = true)
    (hfits : g.edgeCount < Graph.maxEdges) :
    g.after (addition r :: ops) = (g.withEdge r.source r.target r.data).after ops := by
  have hrun : ((addition r).edit.run g).2 = g.withEdge r.source r.target r.data := by
    show (((Graph.addEdge r.source r.target r.data >>= fun _ => pure ()) :
      Graph.Edit V Float Unit).run g).2 = _
    rw [Graph.run_bind, run_addEdge_fits r hs ht hfits]
    rfl
  rw [← hrun]
  rfl

/-- Edges between vertices that are there are all added, if there is room for them. -/
theorem run_addAll_fits
    (h : ∀ r ∈ records, g.contains r.source = true ∧ g.contains r.target = true)
    (hfits : g.edgeCount + records.length ≤ Graph.maxEdges) :
    (addAll records).run g = (.ok (), g.after (records.map addition)) ∧
      (g.after (records.map addition)).edges.toList = g.edges.toList ++ records ∧
      (g.after (records.map addition)).values = g.values := by
  induction records generalizing g with
  | nil => exact ⟨rfl, (List.append_nil _).symm, rfl⟩
  | cons r records ih =>
    obtain ⟨⟨hs, ht⟩, hrest⟩ := List.forall_mem_cons.mp h
    rw [List.length_cons] at hfits
    have hlt : g.edgeCount < Graph.maxEdges := by omega
    have hcount : (g.withEdge r.source r.target r.data).edgeCount = g.edgeCount + 1 :=
      Array.size_push _
    obtain ⟨hrun, hedges, hvalues⟩ :=
      ih (g := g.withEdge r.source r.target r.data) hrest (by omega)
    rw [List.map_cons, after_addition r _ hs ht hlt, addAll_cons, Graph.run_bind,
      run_addEdge_fits r hs ht hlt]
    refine ⟨hrun, ?_, hvalues⟩
    rw [hedges]
    simp [Graph.withEdge]

/-- One edge too many is refused, and there is no other reason to refuse one. -/
theorem run_addAll_full
    (h : ∀ r ∈ records, g.contains r.source = true ∧ g.contains r.target = true)
    (hroom : g.edgeCount ≤ Graph.maxEdges)
    (hfull : Graph.maxEdges < g.edgeCount + records.length) :
    ((addAll records).run g).1 = .error (.graphFull Graph.maxEdges) := by
  induction records generalizing g with
  | nil => exact absurd hroom (Nat.not_le_of_lt hfull)
  | cons r records ih =>
    obtain ⟨⟨hs, ht⟩, hrest⟩ := List.forall_mem_cons.mp h
    rw [List.length_cons] at hfull
    rw [addAll_cons, Graph.run_bind]
    rcases Nat.lt_or_ge g.edgeCount Graph.maxEdges with hlt | hge
    · have hcount : (g.withEdge r.source r.target r.data).edgeCount = g.edgeCount + 1 :=
        Array.size_push _
      rw [run_addEdge_fits r hs ht hlt]
      exact ih (g := g.withEdge r.source r.target r.data) hrest (by omega) (by omega)
    · rw [Graph.run_addEdge, if_pos hs, if_pos ht, if_pos hge]

theorem after_append (g : Graph V Float) (ops ops' : List (Graph.Operation V Float)) :
    g.after (ops ++ ops') = (g.after ops).after ops' :=
  List.foldl_append

theorem grow_grow (g : Graph V Float) (m n : Nat) :
    (g.grow m initial).grow n initial = g.grow (m + n) initial := by
  simp [Graph.grow, Array.append_assoc, Array.replicate_append_replicate]

/-- Vertices that are added one by one. -/
theorem after_addVertex (n : Nat) (g : Graph V Float)
    (h : g.vertexCount + n ≤ Graph.maxVertices) :
    g.after (List.replicate n (.addVertex initial)) = g.grow n initial := by
  induction n generalizing g with
  | zero => simp [Graph.after, Graph.grow]
  | succ n ih =>
    have hrun : ((Graph.Operation.addVertex initial).edit.run g).2 = g.grow 1 initial := by
      show (((Graph.addVertex initial >>= fun _ => pure ()) :
        Graph.Edit V Float Unit).run g).2 = _
      rw [Graph.run_bind, Graph.run_addVertex, if_neg (by omega)]
      rfl
    have hcount : (g.grow 1 initial).vertexCount = g.vertexCount + 1 := by
      simp [Graph.vertexCount, Graph.grow]
    rw [Nat.add_comm n 1, ← grow_grow, ← ih (g.grow 1 initial) (by omega), ← hrun,
      List.replicate_add]
    rfl

/-- The graph with the vertices that are needed and no edge. -/
theorem run_ensureVertices_empty (initial : V) {n : Nat} (h : n ≤ Graph.maxVertices) :
    (Graph.ensureVertices n initial : Graph.Edit V Float Unit).run {} =
      (.ok (), Graph.grow {} n initial) := by
  rw [Graph.run_ensureVertices, if_neg (Nat.not_lt_of_le h)]
  rfl

/-- What the building of a graph comes to, if no number is too large. -/
theorem run_build (initial : V) (h : vertexCount records ≤ Graph.maxVertices) :
    (build initial records).run {} =
      (addAll records).run (Graph.grow {} (vertexCount records) initial) := by
  have hbuild : build initial records = (do
      Graph.ensureVertices (vertexCount records) initial
      addAll records) := rfl
  rw [hbuild, Graph.run_bind, run_ensureVertices_empty initial h]

theorem contains_grow_empty {n : Nat} {v : VertexId} (h : v.toNat < n) :
    (Graph.grow ({} : Graph V Float) n initial).contains v = true := by
  simpa [Graph.contains, Graph.grow] using h

/-- The numbers of the records are below the limit, so there is room for the vertices. -/
theorem vertexCount_le {limit : Nat} (h : ∀ r ∈ records, r.source.toNat < limit ∧
    r.target.toNat < limit) : vertexCount records ≤ limit := by
  rcases Nat.eq_zero_or_pos (vertexCount records) with hzero | hpos
  · omega
  · obtain ⟨r, hr, hlargest⟩ := (vertexCount_eq_iff.mp rfl).2 hpos
    have := h r hr
    omega

/-- Every record is listed on some line. -/
theorem Reads.exists_lists (h : Reads limit lines records) :
    ∀ r ∈ records, ∃ line, Lists limit line r := by
  induction h with
  | nil => exact List.forall_mem_nil _
  | @cons line lines read records htells _ ih =>
    rw [List.forall_mem_append]
    refine ⟨?_, ih⟩
    cases read with
    | none => exact List.forall_mem_nil _
    | some r => exact List.forall_mem_singleton.mpr ⟨line, htells⟩

theorem Reads.lt_limit (h : Reads limit lines records) :
    ∀ r ∈ records, r.source.toNat < limit ∧ r.target.toNat < limit := by
  intro r hr
  obtain ⟨line, hlists⟩ := h.exists_lists r hr
  exact ⟨hlists.source_lt, hlists.target_lt⟩

/-- There is one graph with the records, if they are not too many. -/
theorem run_build_fits (initial : V) (h : vertexCount records ≤ Graph.maxVertices)
    (hfits : records.length ≤ Graph.maxEdges) : ∃ g,
    (build initial records).run {} = (.ok (), g) ∧ ∀ g', Listed initial records g' ↔ g' = g := by
  have hcovers := (vertexCount_eq_iff.mp (rfl : vertexCount records = _)).1
  have hlargest := (vertexCount_eq_iff.mp (rfl : vertexCount records = _)).2
  have hcontains : ∀ r ∈ records,
      (Graph.grow {} (vertexCount records) initial).contains r.source = true ∧
        (Graph.grow {} (vertexCount records) initial).contains r.target = true :=
    fun r hr => ⟨contains_grow_empty (hcovers r hr).1, contains_grow_empty (hcovers r hr).2⟩
  obtain ⟨hrun, hedges, hvalues⟩ := run_addAll_fits hcontains
    (by simpa [Graph.edgeCount, Graph.grow] using hfits)
  rw [← after_addVertex _ _ (by simpa [Graph.vertexCount] using h), ← after_append]
    at hrun hedges hvalues
  generalize hg : Graph.after {} (List.replicate (vertexCount records)
    (Graph.Operation.addVertex initial) ++ records.map addition) = g at hrun hedges hvalues
  rw [after_addVertex _ _ (by simpa [Graph.vertexCount] using h)] at hrun hedges hvalues
  have hcount : g.vertexCount = vertexCount records := by
    rw [Graph.vertexCount, hvalues]
    simp [Graph.grow]
  refine ⟨g, (run_build initial h).trans hrun, fun g' => ⟨fun hlisted => ?_, ?_⟩⟩
  · rw [hlisted.oneByOne, ← vertexCount_eq_iff.mpr ⟨hlisted.covers, hlisted.largest⟩, hg]
  · rintro rfl
    exact {
      values := by rw [hvalues, hcount]; simp [Graph.grow]
      covers := hcount ▸ hcovers
      largest := hcount ▸ hlargest
      edges := by rw [hedges]; simp [Graph.grow]
      oneByOne := by rw [hcount, hg] }

theorem run_build_full (initial : V) (h : vertexCount records ≤ Graph.maxVertices)
    (hfull : Graph.maxEdges < records.length) :
    ((build initial records).run {}).1 = .error (.graphFull Graph.maxEdges) := by
  have hcovers := (vertexCount_eq_iff.mp (rfl : vertexCount records = _)).1
  rw [run_build initial h]
  exact run_addAll_full
    (fun r hr => ⟨contains_grow_empty (hcovers r hr).1, contains_grow_empty (hcovers r hr).2⟩)
    (by simp [Graph.edgeCount, Graph.grow]) (by simpa [Graph.edgeCount, Graph.grow] using hfull)

end

/-! ## The whole text -/

/-- The number below which vertex numbers have to stay. -/
def bound (limit : Nat) : Nat :=
  min limit Graph.maxVertices

section

variable {V : Type} {initial : V} {text : List UInt8}

theorem Reads.vertexCount_le (h : Reads (bound limit) lines records) :
    vertexCount records ≤ Graph.maxVertices :=
  Nat.le_trans (EdgeList.vertexCount_le h.lt_limit) (Nat.min_le_right _ _)

theorem read_fits (initial : V) (h : Reads (bound limit) (Text.lines text) records)
    (hfits : records.length ≤ Graph.maxEdges) :
    ∃ g, read initial limit text = .ok g ∧ ∀ g', Listed initial records g' ↔ g' = g := by
  obtain ⟨g, hrun, hlisted⟩ := run_build_fits initial h.vertexCount_le hfits
  have hlines : readLines (min limit Graph.maxVertices) 1 (Text.lines text) = .ok records :=
    readLines_eq_ok.mpr h
  refine ⟨g, ?_, hlisted⟩
  rw [read, hlines]
  dsimp only [bind, Except.bind]
  rw [hrun]
  rfl

theorem read_full (initial : V) (h : Reads (bound limit) (Text.lines text) records)
    (hfull : Graph.maxEdges < records.length) :
    read initial limit text = .error (.graphFull Graph.maxEdges) := by
  have hrun := run_build_full initial h.vertexCount_le hfull
  have hlines : readLines (min limit Graph.maxVertices) 1 (Text.lines text) = .ok records :=
    readLines_eq_ok.mpr h
  rw [read, hlines]
  dsimp only [bind, Except.bind]
  cases hcase : (build initial records).run {} with
  | mk res g =>
    rw [hcase] at hrun
    cases hrun
    rfl

/-- A line that offends is neither skipped nor lists an edge. -/
theorem Offends.not_tells {fault : LineFault} (h : Offends limit line fault) :
    ¬(IsSkipped line ∨ ∃ r, Lists limit line r) := by
  have hread := readLine_offends h
  rintro (hskipped | ⟨r, hlists⟩)
  · cases hread.symm.trans (readLine_isSkipped hskipped)
  · cases hread.symm.trans (readLine_lists hlists)

theorem read_offends (initial : V) {before after : List (List UInt8)} {fault : LineFault}
    (hlines : Text.lines text = before ++ line :: after)
    (hbefore : ∃ records, Reads (bound limit) before records)
    (hline : Offends (bound limit) line fault) :
    read initial limit text = .error (fault.toError (before.length + 1)) := by
  have hread : readLines (min limit Graph.maxVertices) 1 (Text.lines text) =
      .error (fault.toError (before.length + 1)) :=
    readLines_eq_error.mpr ⟨before, line, after, fault, hlines, hbefore, hline,
      congrArg fault.toError (Nat.add_comm _ _)⟩
  rw [read, hread]
  rfl

/-- A text with a line that offends has a first one. -/
theorem read_cases (limit : Nat) (text : List UInt8) :
    (∃ records, Reads (bound limit) (Text.lines text) records) ∨
      ∃ before line after fault, Text.lines text = before ++ line :: after ∧
        (∃ records, Reads (bound limit) before records) ∧ Offends (bound limit) line fault := by
  cases h : readLines (bound limit) 1 (Text.lines text) with
  | ok records => exact .inl ⟨records, readLines_eq_ok.mp h⟩
  | error e =>
    obtain ⟨before, line, after, fault, hlines, hbefore, hline, -⟩ := readLines_eq_error.mp h
    exact .inr ⟨before, line, after, fault, hlines, hbefore, hline⟩

/-- What reading comes to: a graph, an error on some line, or more edges than a graph can hold. -/
inductive Reading {V : Type} (initial : V) (limit : Nat) (text : List UInt8) :
    Except EngineError (Graph V Float) → Prop
  | offends {before after : List (List UInt8)} {line : List UInt8} {fault : LineFault}
    (hlines : Text.lines text = before ++ line :: after)
    (hbefore : ∃ records, Reads (bound limit) before records)
    (hline : Offends (bound limit) line fault) :
    Reading initial limit text (.error (fault.toError (before.length + 1)))
  | fits {records : List Record} {g : Graph V Float}
    (h : Reads (bound limit) (Text.lines text) records)
    (hfits : records.length ≤ Graph.maxEdges) (hg : Listed initial records g) :
    Reading initial limit text (.ok g)
  | full {records : List Record} (h : Reads (bound limit) (Text.lines text) records)
    (hfull : Graph.maxEdges < records.length) :
    Reading initial limit text (.error (.graphFull Graph.maxEdges))

theorem read_eq_iff {answer : Except EngineError (Graph V Float)} :
    read initial limit text = answer ↔ Reading initial limit text answer := by
  constructor
  · rintro rfl
    rcases read_cases limit text with
      ⟨records, hreads⟩ | ⟨before, line, after, fault, hlines, hbefore, hline⟩
    · rcases Nat.lt_or_ge Graph.maxEdges records.length with hfull | hfits
      · rw [read_full initial hreads hfull]
        exact .full hreads hfull
      · obtain ⟨g, hg, hlisted⟩ := read_fits initial hreads hfits
        rw [hg]
        exact .fits hreads hfits ((hlisted g).mpr rfl)
    · rw [read_offends initial hlines hbefore hline]
      exact .offends hlines hbefore hline
  · intro h
    cases h with
    | offends hlines hbefore hline => exact read_offends initial hlines hbefore hline
    | fits hreads hfits hlisted =>
      obtain ⟨g, hg, hiff⟩ := read_fits initial hreads hfits
      rw [(hiff _).mp hlisted, hg]
    | full hreads hfull => exact read_full initial hreads hfull

/-- What is read is the graph with the edges on the lines. -/
theorem read_eq_ok {g : Graph V Float} : read initial limit text = .ok g ↔
    ∃ records, Reads (bound limit) (Text.lines text) records ∧
      records.length ≤ Graph.maxEdges ∧ Listed initial records g := by
  rw [read_eq_iff]
  constructor
  · intro h
    cases h with
    | fits hreads hfits hlisted => exact ⟨_, hreads, hfits, hlisted⟩
  · rintro ⟨records, hreads, hfits, hlisted⟩
    exact .fits hreads hfits hlisted

/-- What is told is the first line that offends or, if no line does, that there are too many
edges. -/
theorem read_eq_error {e : EngineError} : read initial limit text = .error e ↔
    (∃ before line after fault, Text.lines text = before ++ line :: after ∧
      (∀ l ∈ before, IsSkipped l ∨ ∃ r, Lists (bound limit) l r) ∧
      Offends (bound limit) line fault ∧ e = fault.toError (before.length + 1)) ∨
    ∃ records, Reads (bound limit) (Text.lines text) records ∧
      Graph.maxEdges < records.length ∧ e = .graphFull Graph.maxEdges := by
  rw [read_eq_iff]
  constructor
  · intro h
    cases h with
    | offends hlines hbefore hline =>
      exact .inl ⟨_, _, _, _, hlines, exists_reads_iff.mp hbefore, hline, rfl⟩
    | full hreads hfull => exact .inr ⟨_, hreads, hfull, rfl⟩
  · rintro (⟨before, line, after, fault, hlines, hbefore, hline, rfl⟩ |
      ⟨records, hreads, hfull, rfl⟩)
    · exact .offends hlines (exists_reads_iff.mpr hbefore) hline
    · exact .full hreads hfull

theorem built_of_read {g : Graph V Float} (h : read initial limit text = .ok g) : g.Built := by
  obtain ⟨records, -, -, hlisted⟩ := read_eq_ok.mp h
  rw [hlisted.oneByOne]
  exact Graph.Built.empty.after _

/-- No infinite weight is read. -/
theorem finite_of_read {g : Graph V Float} (h : read initial limit text = .ok g) :
    ∀ e ∈ g.edges, e.data.isFinite = true := by
  obtain ⟨records, hreads, -, hlisted⟩ := read_eq_ok.mp h
  intro e he
  rw [← Array.mem_toList_iff, hlisted.edges] at he
  obtain ⟨line, hlists⟩ := hreads.exists_lists e he
  exact hlists.finite

theorem Reads.length_le (h : Reads limit lines records) : records.length ≤ lines.length := by
  induction h with
  | nil => exact Nat.le_refl 0
  | @cons line lines read records _ _ ih =>
    rw [List.length_append, List.length_cons]
    cases read with
    | none => simpa using Nat.le_succ_of_le ih
    | some r => simpa [Nat.add_comm 1] using ih

theorem HasFields.isSome_textOf? {fields : List (List Char)} (h : HasFields line fields) :
    (textOf? line).isSome = true := by
  obtain ⟨cs, hcs, -⟩ := h
  exact Option.isSome_of_eq_some hcs

/-- What a line is refused for is told with its number, unless it is no text. -/
theorem Offends.toError {fault : LineFault} (h : Offends limit line fault) (number : Nat) :
    textOf? line = none ∧ fault.toError number = .io "stream did not contain valid UTF-8" ∨
      (textOf? line).isSome = true ∧ ∃ reason, fault.toError number = .parse number reason := by
  cases h with
  | notText h => exact .inl ⟨h, rfl⟩
  | fieldCount h _ | source h _ | target h _ _ | weight h _ _ _ | infinite h _ _ _ _
  | sourceLimit h _ _ _ _ _ | targetLimit h _ _ _ _ _ _ => exact .inr ⟨h.isSome_textOf?, _, rfl⟩

/-- An edge list is read if and only if every line of it is skipped or lists an edge, and these are
no more than `Graph.maxEdges`; then the graph is the one with the listed edges.  Otherwise the first
line that offends is the error, told with its number if it is text, and no other line matters.  The
only other error is that there are no numbers for so many edges. -/
theorem reads_exactly {V : Type} (initial : V) (limit : Nat) (text : List UInt8) :
    (∀ g, read initial limit text = .ok g ↔
      ∃ records, Reads (bound limit) (Text.lines text) records ∧
        records.length ≤ Graph.maxEdges ∧ Listed initial records g) ∧
    ((∃ records, Reads (bound limit) (Text.lines text) records) ↔
      ∀ line ∈ Text.lines text, IsSkipped line ∨ ∃ r, Lists (bound limit) line r) ∧
    (∀ e, read initial limit text = .error e ↔
      (∃ before line after fault, Text.lines text = before ++ line :: after ∧
        (∀ l ∈ before, IsSkipped l ∨ ∃ r, Lists (bound limit) l r) ∧
        Offends (bound limit) line fault ∧ e = fault.toError (before.length + 1)) ∨
      ∃ records, Reads (bound limit) (Text.lines text) records ∧
        Graph.maxEdges < records.length ∧ e = .graphFull Graph.maxEdges) ∧
    ∀ e, read initial limit text = .error e →
      (∃ before line after, Text.lines text = before ++ line :: after ∧
        (∀ l ∈ before, IsSkipped l ∨ ∃ r, Lists (bound limit) l r) ∧
        ¬(IsSkipped line ∨ ∃ r, Lists (bound limit) line r) ∧
        (textOf? line = none ∧ e = .io "stream did not contain valid UTF-8" ∨
          (textOf? line).isSome = true ∧ ∃ reason, e = .parse (before.length + 1) reason)) ∨
      e = .graphFull Graph.maxEdges ∧ Graph.maxEdges < (Text.lines text).length := by
  refine ⟨fun g => read_eq_ok, exists_reads_iff, fun e => read_eq_error, fun e h => ?_⟩
  rcases read_eq_error.mp h with ⟨before, line, after, fault, hlines, hbefore, hline, rfl⟩ |
    ⟨records, hreads, hfull, rfl⟩
  · exact .inl ⟨before, line, after, hlines, hbefore, hline.not_tells, hline.toError _⟩
  · exact .inr ⟨rfl, Nat.lt_of_lt_of_le hfull hreads.length_le⟩

/-- A line whose first character is a zero is not skipped. -/
theorem hasFields_of_zero {fields : List (List Char)} (cs : List Char) (h : textOf? line = some cs)
    (hfirst : cs.find? (!Text.isBlank ·) = some '0') (hwords : Text.words cs = fields) :
    HasFields line fields :=
  ⟨cs, h, ⟨'0', hfirst, by decide⟩, Text.words_eq_iff.mp hwords⟩

/-- A comment, an edge, a blank line, and a line without a weight. -/
def shortOnLine4 : List UInt8 :=
  [35, 10] ++ [48, 32, 49, 32, 53, 10] ++ [32, 10] ++ [48, 32, 49, 10]

/-- The lines before it are counted, skipped or not. -/
theorem reads_exactly_shortOnLine4 :
    read 7 10 shortOnLine4 = .error ((LineFault.fieldCount 2).toError 4) := by
  have htext : Text.lines shortOnLine4 =
      [[35], [48, 32, 49, 32, 53], [32]] ++ [48, 32, 49] :: [] := by decide
  have hshort : HasFields [48, 32, 49] [['0'], ['1']] :=
    hasFields_of_zero ['0', ' ', '1'] rfl rfl rfl
  refine ((reads_exactly 7 10 shortOnLine4).2.2.1 _).mpr
    (.inl ⟨_, _, _, _, htext, ?_, .fieldCount hshort (by decide), rfl⟩)
  have hcomment : IsSkipped [35] := ⟨['#'], rfl, fun c hc => (Option.some.inj hc).symm⟩
  have hblank : IsSkipped [32] := ⟨[' '], rfl, nofun⟩
  have hedge : Lists (bound 10) [48, 32, 49, 32, 53] ⟨0, 1, 5⟩ :=
    ⟨⟨['0'], ['1'], ['5'], hasFields_of_zero ['0', ' ', '1', ' ', '5'] rfl rfl rfl, rfl, rfl, rfl⟩,
      rfl, by decide, by decide⟩
  rw [List.forall_mem_cons, List.forall_mem_cons, List.forall_mem_singleton]
  exact ⟨.inl hcomment, .inr ⟨_, hedge⟩, .inl hblank⟩

/-! ### As many lines as one likes -/

/-- A text with this many lines, each of which lists the same edge from vertex zero to itself. -/
def loops (n : Nat) : List UInt8 :=
  (List.replicate n [48, 32, 48, 32, 53]).flatMap (· ++ [10])

theorem lines_loops (n : Nat) : Text.lines (loops n) = List.replicate n [48, 32, 48, 32, 53] := by
  refine Text.lines_flatMap fun line hline => ?_
  rw [List.eq_of_mem_replicate hline]
  decide

theorem lists_loop : Lists (bound 1) [48, 32, 48, 32, 53] ⟨0, 0, 5⟩ :=
  ⟨⟨['0'], ['0'], ['5'], hasFields_of_zero ['0', ' ', '0', ' ', '5'] rfl rfl rfl, rfl, rfl, rfl⟩,
    rfl, by decide, by decide⟩

theorem reads_loops (n : Nat) :
    Reads (bound 1) (Text.lines (loops n)) (List.replicate n ⟨0, 0, 5⟩) := by
  rw [lines_loops]
  induction n with
  | zero => exact .nil
  | succ n ih =>
    have htells : Tells (bound 1) [48, 32, 48, 32, 53] (some ⟨0, 0, 5⟩) := lists_loop
    exact .cons htells ih

theorem read_loops_full {n : Nat} (h : Graph.maxEdges < n) :
    read initial 1 (loops n) = .error (.graphFull Graph.maxEdges) :=
  read_full initial (reads_loops n) (by rwa [List.length_replicate])

/-- Where no line offends the text may still list one edge too many; and what is no text is refused
in the same words whatever its line. -/
theorem full_without_offence :
    (∀ line ∈ Text.lines (loops (Graph.maxEdges + 1)), ∃ r, Lists (bound 1) line r) ∧
      read 0 1 (loops (Graph.maxEdges + 1)) = .error (.graphFull Graph.maxEdges) ∧
      read 0 1 [255] = .error (.io "stream did not contain valid UTF-8") ∧
      read 0 1 [10, 255] = .error (.io "stream did not contain valid UTF-8") := by
  refine ⟨fun line hline => ?_, read_loops_full (Nat.lt_succ_self _), rfl, rfl⟩
  rw [lines_loops] at hline
  rw [List.eq_of_mem_replicate hline]
  exact ⟨_, lists_loop⟩

end

end EdgeList

end VertexEngine
