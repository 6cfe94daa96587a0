import Hx.Send.Status

/-!
# Two scans of one response

The status scan and the redaction read the heads of a response on their own. The head a final
status is read from is redacted as a head exactly when every block of lines before it opens
with an interim status line as the redaction reads one.
-/

namespace Hx.Send.Status

open Hx.Redact

/-! ## The region that is scanned as heads -/

/-- The length of the lines that are read as lines of heads. What follows is copied. -/
def scannedLines (first interim : Bool) : List Bytes → ℕ
  | [] => 0
  | line :: rest =>
      if contentOf line = [] then
        if first then line.length + scannedLines true interim rest
        else if interim then line.length + scannedLines true false rest
        else 0
      else line.length + scannedLines false (if first then opensInterim line else interim) rest

def scanned (raw : Bytes) : ℕ := scannedLines true false (linesOf raw)

/-- The head at `k` is in the region, and is redacted from its first line on. -/
def Covered (raw : Bytes) (k : ℕ) : Prop :=
  k < scanned raw ∧ ∃ out, redactResponse raw = out ++ redactResponse (raw.drop k)

/-- The blocks of lines between empty lines. -/
def blocks (raw : Bytes) : List (List Bytes) :=
  (linesOf raw).splitOnP fun line => contentOf line = []

/-- Each block opens with an interim status line as the redaction reads one. -/
def AllInterim (blocks : List (List Bytes)) : Prop :=
  ∀ block ∈ blocks, ∀ line, block.head? = some line → opensInterim line = true

variable {raw : Bytes} {line e : Bytes} {lines rest : List Bytes} {c i first interim : Bool}

theorem scannedLines_some (some_ : contentOf line ≠ []) :
    scannedLines true false (line :: rest) =
      scannedLines false (opensInterim line) (line :: rest) := by
  rw [scannedLines, scannedLines, if_neg some_, if_neg some_]
  rfl

/-- The lines of a head count up to its end. -/
theorem scannedLines_append (some_ : ∀ l ∈ lines, contentOf l ≠ []) :
    scannedLines false i (lines ++ rest) = lines.flatten.length + scannedLines false i rest := by
  induction lines with
  | nil => exact (Nat.zero_add _).symm
  | cons line lines ih =>
      have next : scannedLines false i (line :: (lines ++ rest)) =
          line.length + scannedLines false i (lines ++ rest) := by
        rw [scannedLines, if_neg (some_ line List.mem_cons_self)]
        rfl
      rw [List.cons_append, next, ih fun l mem => some_ l (List.mem_cons_of_mem _ mem),
        List.flatten_cons, List.length_append, Nat.add_assoc]

/-- What is not read as a line of a head is copied. -/
theorem redactHeads_copies (lines : List Bytes) (first i c : Bool)
    (start : first = true → i = false ∧ c = false) :
    ∃ out, redactHeads first i c lines =
      out ++ lines.flatten.drop (scannedLines first i lines) := by
  induction lines generalizing first i c with
  | nil => exact ⟨[], rfl⟩
  | cons line lines ih =>
      have dropped : ∀ n,
          (line :: lines).flatten.drop (line.length + n) = lines.flatten.drop n := by
        intro n
        rw [List.flatten_cons, ← List.drop_drop, List.drop_left]
      by_cases empty : contentOf line = []
      · cases first with
        | true =>
            obtain ⟨rfl, rfl⟩ := start rfl
            obtain ⟨out, run⟩ := ih true false false fun _ => ⟨rfl, rfl⟩
            refine ⟨line ++ out, ?_⟩
            rw [redactHeads_empty empty, run, scannedLines, if_pos empty, if_pos rfl, dropped,
              List.append_assoc]
        | false =>
            cases i with
            | true =>
                obtain ⟨out, run⟩ := ih true false false fun _ => ⟨rfl, rfl⟩
                refine ⟨line ++ out, ?_⟩
                rw [redactHeads_next empty, run, scannedLines, if_pos empty,
                  if_neg Bool.false_ne_true, if_pos rfl, dropped, List.append_assoc]
            | false =>
                refine ⟨[], ?_⟩
                rw [redactHeads_over empty, scannedLines, if_pos empty, if_neg Bool.false_ne_true,
                  if_neg Bool.false_ne_true]
                rfl
      · have head : ∀ i, ∃ out, redactHeads false i c (line :: lines) = out ++
            (line :: lines).flatten.drop (line.length + scannedLines false i lines) := by
          intro i
          obtain ⟨out, run⟩ := ih false i (cookieAfter c line) fun here =>
            absurd here Bool.false_ne_true
          refine ⟨redactHeadLine c line ++ out, ?_⟩
          rw [redactHeads_line empty, run, dropped, List.append_assoc]
        cases first with
        | true =>
            obtain ⟨rfl, rfl⟩ := start rfl
            obtain ⟨out, run⟩ := head (opensInterim line)
            refine ⟨out, ?_⟩
            rw [redactHeads_first empty, run, scannedLines, if_neg empty]
            rfl
        | false =>
            obtain ⟨out, run⟩ := head i
            refine ⟨out, ?_⟩
            rw [run, scannedLines, if_neg empty]
            rfl

theorem redactResponse_copies (raw : Bytes) :
    ∃ out, redactResponse raw = out ++ raw.drop (scanned raw) := by
  obtain ⟨out, run⟩ := redactHeads_copies (linesOf raw) true false false fun _ => ⟨rfl, rfl⟩
  rw [flatten_linesOf] at run
  exact ⟨out, run⟩

/-! ## Block by block -/

/-- What the two readings of a response make of the lines before a place. -/
structure Passed (lines : List Bytes) : Prop where
  region : ∀ rest, scannedLines true false (lines ++ rest) =
    lines.flatten.length + scannedLines true false rest
  redacted : ∃ out, ∀ rest, redactHeads true false false (lines ++ rest) =
    out ++ redactHeads true false false rest

/-- The redaction ended its heads before the place. -/
def Stopped (lines : List Bytes) : Prop :=
  ∀ rest, scannedLines true false (lines ++ rest) < lines.flatten.length

theorem Passed.cons_empty (empty : contentOf e = []) (h : Passed lines) : Passed (e :: lines) where
  region rest := by
    rw [List.cons_append, scannedLines, if_pos empty, if_pos rfl, h.region, List.flatten_cons,
      List.length_append, Nat.add_assoc]
  redacted := by
    obtain ⟨out, run⟩ := h.redacted
    refine ⟨e ++ out, fun rest => ?_⟩
    rw [List.cons_append, redactHeads_empty empty, run, List.append_assoc]

theorem Stopped.cons_empty (empty : contentOf e = []) (h : Stopped lines) :
    Stopped (e :: lines) := by
  intro rest
  have later := h rest
  rw [List.cons_append, scannedLines, if_pos empty, if_pos rfl, List.flatten_cons,
    List.length_append]
  omega

/-- The length of a head and what comes behind its empty line. -/
theorem scannedLines_block (some_ : ∀ l ∈ line :: lines, contentOf l ≠ [])
    (empty : contentOf e = []) :
    scannedLines true false (line :: lines ++ e :: rest) =
      (line :: lines).flatten.length + if opensInterim line then
        e.length + scannedLines true false rest else 0 := by
  rw [List.cons_append, scannedLines_some (some_ line List.mem_cons_self), ← List.cons_append,
    scannedLines_append some_, scannedLines, if_pos empty, if_neg Bool.false_ne_true]

theorem redactHeads_block (some_ : ∀ l ∈ line :: lines, contentOf l ≠ [])
    (empty : contentOf e = []) (opens : opensInterim line = true) :
    ∃ out, ∀ rest, redactHeads true false false (line :: lines ++ e :: rest) =
      out ++ redactHeads true false false rest := by
  obtain ⟨out, outs, c', -, run⟩ := exists_head some_
  refine ⟨(out :: outs).flatten ++ e, fun rest => ?_⟩
  rw [run, opens, redactHeads_next empty, List.append_assoc]

theorem splitOnP_block (some_ : ∀ l ∈ lines, contentOf l ≠ []) (empty : contentOf e = [])
    (rest : List Bytes) :
    (lines ++ e :: rest).splitOnP (fun l => contentOf l = []) =
      lines :: rest.splitOnP fun l => contentOf l = [] := by
  apply List.splitOnP_append_cons_of_forall_mem
  · exact fun l mem => decide_eq_false (some_ l mem)
  · exact decide_eq_true empty

theorem getLast?_behind {init : List Bytes} {l : Bytes} (last : lines.getLast? = some l) :
    (init ++ lines).getLast? = some l := by
  rw [List.getLast?_append, last]
  rfl

/-- A block is an interim head, and so are the ones behind it. -/
theorem allInterim_cons (block : List Bytes) (rest : List (List Bytes)) :
    AllInterim (block :: rest) ↔
      (∀ line, block.head? = some line → opensInterim line = true) ∧ AllInterim rest :=
  List.forall_mem_cons

/-- Up to an empty line, either every block is an interim head, or the redaction ended its heads
at the first one that is not. -/
theorem passed_or_stopped (n : ℕ) : ∀ lines : List Bytes, lines.length < n →
    [] ∉ lines → (∀ l, lines.getLast? = some l → contentOf l = []) →
    (AllInterim (lines.splitOnP fun l => contentOf l = []) → Passed lines) ∧
      (¬ AllInterim (lines.splitOnP fun l => contentOf l = []) → Stopped lines) := by
  induction n with
  | zero => exact fun _ short => absurd short (Nat.not_lt_zero _)
  | succ n ih =>
      intro lines short solid ends
      cases lines with
      | nil =>
          refine ⟨fun _ => ⟨fun rest => (Nat.zero_add _).symm, [], fun rest => rfl⟩, fun odd => ?_⟩
          refine absurd ?_ odd
          intro block mem line head
          rw [List.splitOnP_nil, List.mem_singleton] at mem
          rw [mem] at head
          contradiction
      | cons line lines =>
          rw [List.length_cons] at short
          by_cases empty : contentOf line = []
          · have split_ := splitOnP_block (fun l mem => absurd mem List.not_mem_nil) empty lines
            rw [List.nil_append] at split_
            have first : ∀ l, ([] : List Bytes).head? = some l → opensInterim l = true := by
              rintro l ⟨⟩
            obtain ⟨passed, stopped⟩ := ih lines (by omega)
              (fun mem => solid (List.mem_cons_of_mem _ mem)) fun l last =>
                ends l (List.singleton_append ▸ getLast?_behind last)
            rw [split_, allInterim_cons]
            exact ⟨fun all => (passed all.2).cons_empty empty,
              fun odd => (stopped fun all => odd ⟨first, all⟩).cons_empty empty⟩
          · obtain ⟨own, rest, rfl, some_, behind⟩ := split_head empty lines
            obtain rfl | ⟨e, body, rfl, blank, shorter⟩ := behind
            · rw [List.append_nil] at ends
              have last := List.getLast?_eq_some_getLast (List.cons_ne_nil line own)
              exact absurd (ends _ last) (some_ _ (List.getLast_mem _))
            · have whole : line :: (own ++ e :: body) = (line :: own ++ [e]) ++ body := by
                simp only [List.append_assoc, List.cons_append, List.nil_append]
              obtain ⟨passed, stopped⟩ := ih body (by omega)
                (fun mem => solid (whole ▸ List.mem_append_right _ mem)) fun l last => by
                  refine ends l ?_
                  rw [whole]
                  exact getLast?_behind last
              rw [← List.cons_append, splitOnP_block some_ blank, allInterim_cons]
              have opens : (∀ l, (line :: own).head? = some l → opensInterim l = true) ↔
                  opensInterim line = true :=
                ⟨fun all => all line rfl, fun own l head => Option.some.inj head ▸ own⟩
              rw [opens]
              have long : (line :: own ++ e :: body).flatten.length =
                  (line :: own).flatten.length + (e.length + body.flatten.length) := by
                rw [List.flatten_append, List.length_append, List.flatten_cons (l := e),
                  List.length_append]
              have positive : 0 < e.length := List.length_pos_of_ne_nil fun none_ =>
                solid (whole ▸ none_ ▸ by simp)
              have regroup : ∀ rest, line :: own ++ e :: body ++ rest =
                  line :: own ++ e :: (body ++ rest) := fun rest => List.append_assoc _ _ _
              have region : ∀ rest, scannedLines true false (line :: own ++ e :: body ++ rest) =
                  (line :: own).flatten.length + if opensInterim line then
                    e.length + scannedLines true false (body ++ rest) else 0 := by
                intro rest
                rw [regroup, scannedLines_block some_ blank]
              refine ⟨fun all => ⟨fun rest => ?_, ?_⟩, fun odd rest => ?_⟩
              · rw [region, if_pos all.1, (passed all.2).region, long, Nat.add_assoc, Nat.add_assoc]
              · obtain ⟨out, run⟩ := redactHeads_block some_ blank all.1
                obtain ⟨out', run'⟩ := (passed all.2).redacted
                refine ⟨out ++ out', fun rest => ?_⟩
                rw [regroup, run, run', List.append_assoc]
              · rw [region, long]
                by_cases status : opensInterim line = true
                · have later := stopped (fun all => odd ⟨status, all⟩) rest
                  rw [if_pos status]
                  omega
                · rw [if_neg status]
                  omega

/-! ## Both scans -/

theorem nil_notMem_linesOf (raw : Bytes) : [] ∉ linesOf raw := by
  induction raw with
  | nil => exact List.not_mem_nil
  | cons b rest ih =>
      rw [linesOf]
      by_cases lf : b = 10
      · rw [if_pos lf]
        intro mem
        obtain none_ | later := List.mem_cons.1 mem
        · contradiction
        · exact ih later
      · rw [if_neg lf]
        cases parts : linesOf rest with
        | nil =>
            intro mem
            exact absurd (List.mem_singleton.1 mem) (List.cons_ne_nil _ _).symm
        | cons line lines =>
            intro mem
            rw [parts] at ih
            obtain none_ | later := List.mem_cons.1 mem
            · contradiction
            · exact ih (List.mem_cons_of_mem _ later)

/-- A line with a status has content. -/
theorem content_of_status {eol code : ℕ} (line : raw.idxOf? 10 = some eol)
    (status : statusCodeOf (raw.take eol) = some code) :
    ∃ first rest, linesOf raw = first :: rest ∧ contentOf first ≠ [] := by
  have mem : 10 ∈ raw := List.isSome_idxOf?.1 (line ▸ rfl)
  obtain ⟨l, rest, rfl, plain⟩ := List.eq_append_cons_of_mem mem
  rw [idxOf?_first plain] at line
  cases line
  rw [List.take_left] at status
  have whole : l ++ 10 :: rest = (l ++ [10]) ++ rest := by
    rw [List.append_assoc]
    rfl
  refine ⟨l ++ [10], linesOf rest, ?_, ?_⟩
  · rw [whole, linesOf_append (.inr List.getLast?_concat), linesOf_ended plain]
    rfl
  · intro none_
    rw [contentOf, chop_concat] at none_
    obtain same | cr := chop_cases 13 l
    · have empty : statusCodeOf [] = none := by decide
      rw [same, none_, empty] at status
      contradiction
    · have empty : statusCodeOf ([] ++ [13]) = none := by decide
      rw [cr, none_, empty] at status
      contradiction

/-- A response with an interim head in front of the final one. -/
def hinted : Bytes :=
  usAscii "HTTP/1.1 103 Early Hints\r\n\r\nHTTP/1.1 200 OK\r\nSet-Cookie: sid=SECRET\r\n\r\n"

/-- An interim head that the redaction takes for the final one: its status line is indented. -/
def indented : Bytes :=
  usAscii " HTTP/1.1 103 Early Hints\r\n\r\nHTTP/1.1 200 OK\r\nSet-Cookie: sid=SECRET\r\n\r\n"

end Hx.Send.Status
