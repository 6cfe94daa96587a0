import Hx.Issue.Request
import Hx.Library.Fallible

/-!
# What `request_bytes` accepts

The bytes of a request that is accepted are its lines, each encoded and ended, and its body.
A header line whose name is a token is compared by that name as its field is, and a length
that `int` reads from digits is the number they write.
-/

namespace Hx.Issue

open Hx.Python Hx.Library Hx.Library.Message

def encoded (s : Text) : List UInt8 := s.map encodeChar

/-- The value of a header line, behind its first colon. -/
def valueOf (line : Text) : Text := (partition ':' line).2.getD []

/-- A header line as a field. -/
def fieldOf (line : Text) : Message.Field :=
  ⟨encoded (partition ':' line).1, trim (encoded (valueOf line))⟩

def isLength (line : Text) : Bool := nameOf line == txt "content-length"

/-! ## Characters -/

section Characters

variable {c : Char} {s t : Text} {line : Text}

theorem toNat_encodeChar (small : c.toNat < 256) : (encodeChar c).toNat = c.toNat :=
  UInt8.toNat_ofNat_of_lt small

/-- A decidable form, for names that are written out. -/
theorem latin1_of_all (all : s.all (fun c => c.toNat < 256) = true) : ∀ c ∈ s, c.toNat < 256 :=
  fun c mem => of_decide_eq_true (List.all_eq_true.1 all c mem)

theorem encoded_append (s t : Text) : encoded (s ++ t) = encoded s ++ encoded t :=
  List.map_append

theorem encoded_inj (smallS : ∀ c ∈ s, c.toNat < 256) (smallT : ∀ c ∈ t, c.toNat < 256)
    (same : encoded s = encoded t) : s = t := by
  induction s generalizing t with
  | nil => exact (List.map_eq_nil_iff.1 same.symm).symm
  | cons c s ih =>
      cases t with
      | nil => exact absurd same (List.cons_ne_nil _ _)
      | cons d t =>
          obtain ⟨first, rest⟩ := List.cons.inj same
          have codes : c.toNat = d.toNat := by
            rw [← toNat_encodeChar (smallS c List.mem_cons_self), first,
              toNat_encodeChar (smallT d List.mem_cons_self)]
          rw [Char.toNat_inj.1 codes, ih (fun e mem => smallS e (List.mem_cons_of_mem _ mem))
            (fun e mem => smallT e (List.mem_cons_of_mem _ mem)) rest]

/-- A token's characters are no blanks, and Python lower-cases them as ASCII. -/
theorem token_byte : ∀ n < 256, isTokenByte (UInt8.ofNat n) = true →
    isSpace (Char.ofNat n) = false ∧ (lowerChar (Char.ofNat n)).map encodeChar =
      [Message.lower (UInt8.ofNat n)] ∧ (lowerChar (Char.ofNat n)).all (·.toNat < 256) = true := by
  decide +kernel

theorem token_char (small : c.toNat < 256) (token : isTokenByte (encodeChar c) = true) :
    isSpace c = false ∧ (lowerChar c).map encodeChar = [Message.lower (encodeChar c)] ∧
      ∀ d ∈ lowerChar c, d.toNat < 256 := by
  obtain ⟨space, letter, plain⟩ := token_byte c.toNat small token
  rw [Char.ofNat_toNat] at space letter plain
  exact ⟨space, letter, fun d mem => of_decide_eq_true (List.all_eq_true.1 plain d mem)⟩

theorem lower_token (small : ∀ c ∈ s, c.toNat < 256)
    (token : ∀ c ∈ s, isTokenByte (encodeChar c) = true) :
    encoded (lower s) = (encoded s).map Message.lower ∧ ∀ d ∈ lower s, d.toNat < 256 := by
  induction s with
  | nil => exact ⟨rfl, fun d mem => absurd mem List.not_mem_nil⟩
  | cons c s ih =>
      obtain ⟨rest, plain⟩ := ih (fun d mem => small d (List.mem_cons_of_mem _ mem))
        fun d mem => token d (List.mem_cons_of_mem _ mem)
      obtain ⟨-, letter, first⟩ := token_char (small c List.mem_cons_self)
        (token c List.mem_cons_self)
      have split : lower (c :: s) = lowerChar c ++ lower s := List.flatMap_cons
      rw [split]
      refine ⟨?_, fun d mem => (List.mem_append.1 mem).elim (first d) (plain d)⟩
      rw [encoded_append, rest]
      show (lowerChar c).map encodeChar ++ _ = _
      rw [letter]
      rfl

/-- Nothing is dropped from the ends of what has nothing to drop. -/
theorem ends_eq_self {α : Type} {p : α → Bool} {l : List α} (clean : ∀ a ∈ l, p a = false) :
    (l.dropWhile p).rdropWhile p = l := by
  have front : l.dropWhile p = l := by
    cases l with
    | nil => rfl
    | cons a l => rw [List.dropWhile_cons_of_neg (by simp [clean a List.mem_cons_self])]
  rw [front, List.rdropWhile_eq_self_iff]
  intro some_ drops
  rw [clean _ (List.getLast_mem some_)] at drops
  contradiction

theorem strip_eq_self (clean : ∀ c ∈ s, isSpace c = false) : strip s = s := ends_eq_self clean

end Characters

/-! ## Header lines -/

section Lines

variable {line : Text}

theorem all_encoded {p : UInt8 → Bool} {s : Text} :
    (∀ b ∈ encoded s, p b = true) ↔ ∀ c ∈ s, p (encodeChar c) = true :=
  List.forall_mem_map

theorem partition_some {sep : Char} {s value : Text} (found : (partition sep s).2 = some value) :
    s = (partition sep s).1 ++ sep :: value := by
  have whole := List.takeWhile_append_dropWhile (p := (· ≠ sep)) (l := s)
  rw [partition, List.span_eq_takeWhile_dropWhile] at found ⊢
  cases rest : s.dropWhile (· ≠ sep) with
  | nil =>
      rw [rest] at found
      contradiction
  | cons c after =>
      have stop := List.head?_dropWhile_not (· ≠ sep) s
      rw [rest] at found stop whole
      cases Option.some.inj found
      have here : c = sep := by simpa using stop
      rw [here] at whole
      exact whole.symm

theorem of_token {s : Text} (token : isToken (encoded s) = true) :
    s ≠ [] ∧ ∀ c ∈ s, isTokenByte (encodeChar c) = true := by
  obtain ⟨some_, all⟩ := Bool.and_eq_true_iff.1 token
  refine ⟨?_, all_encoded.1 (List.all_eq_true.1 all)⟩
  rintro rfl
  contradiction

/-- The name of a line is compared as the name of its field is. -/
theorem isNamed_fieldOf (small : ∀ c ∈ line, c.toNat < 256) {value : Text}
    (found : (partition ':' line).2 = some value)
    (token : isToken (encoded (partition ':' line).1) = true) {name : Text}
    (plain : ∀ c ∈ name, c.toNat < 256) :
    Field.isNamed (encoded name) (fieldOf line) = (nameOf line == name) := by
  have tokens := (of_token token).2
  have small' : ∀ c ∈ (partition ':' line).1, c.toNat < 256 := by
    intro c mem
    refine small c ?_
    rw [partition_some found]
    exact List.mem_append_left _ mem
  have kept : strip (partition ':' line).1 = (partition ':' line).1 :=
    strip_eq_self fun c mem => (token_char (small' c mem) (tokens c mem)).1
  obtain ⟨same, latin⟩ := lower_token small' tokens
  have lowered : encoded (nameOf line) = (fieldOf line).name.map Message.lower := by
    rw [nameOf, kept]
    exact same
  rw [Field.isNamed, ← lowered]
  apply Bool.eq_iff_iff.2
  rw [beq_iff_eq, beq_iff_eq]
  refine ⟨fun equal => encoded_inj ?_ plain equal, congrArg encoded⟩
  rw [nameOf, kept]
  exact latin

end Lines

/-! ## What is accepted -/

section Accepted

variable {D : Decimals} {method path host line : Text} {headers lines : List Text}
  {body bytes : List UInt8} {n : ℕ} {counted : Bool}

/-- A header line that passes. -/
structure Passes (D : Decimals) (length : ℕ) (line : Text) : Prop where
  colon : (partition ':' line).2 = some (valueOf line)
  uncoded : nameOf line ≠ txt "transfer-encoding"
  length : isLength line = true → int D (strip (valueOf line)) = some (length : ℤ)

theorem passes_of_checkHeader (passed : checkHeader D n line = .ok counted) :
    Passes D n line ∧ counted = isLength line := by
  rw [checkHeader] at passed
  obtain ⟨-, -, passed⟩ := of_bind_ok passed
  split at passed
  · cases passed
  · rename_i value found
    have own : valueOf line = value := by rw [valueOf, found]; rfl
    split at passed
    · cases passed
    · split at passed
      · cases passed
      · rename_i uncoded
        split at passed
        · rename_i named
          have isL : isLength line = true := beq_iff_eq.2 named
          split at passed
          · cases passed
          · rename_i declared read
            split at passed
            · cases passed
            · rename_i agrees
              cases passed
              rw [not_not] at agrees
              exact ⟨⟨own ▸ found, uncoded, fun _ => own ▸ agrees ▸ read⟩, isL.symm⟩
        · rename_i other
          cases passed
          have isL : isLength line = false := beq_eq_false_iff_ne.2 other
          exact ⟨⟨own ▸ found, uncoded, fun yes => absurd (isL.symm.trans yes) (by decide)⟩,
            isL.symm⟩

theorem passes_of_checkHeaders (passed : checkHeaders D n lines = .ok counted) :
    (∀ line ∈ lines, Passes D n line) ∧ counted = lines.any isLength := by
  induction lines generalizing counted with
  | nil =>
      cases passed
      exact ⟨fun _ mem => absurd mem List.not_mem_nil, rfl⟩
  | cons line lines ih =>
      rw [checkHeaders] at passed
      obtain ⟨first, here, passed⟩ := of_bind_ok passed
      obtain ⟨later, there, passed⟩ := of_bind_ok passed
      cases passed
      obtain ⟨passes, rfl⟩ := passes_of_checkHeader here
      obtain ⟨all, rfl⟩ := ih there
      exact ⟨List.forall_mem_cons.2 ⟨passes, all⟩, rfl⟩

theorem encoded_joined (line : Text) (lines : List Text) :
    encoded ((txt "\r\n").intercalate (line :: lines) ++ txt "\r\n\r\n") =
      writeHead ((line :: lines).map encoded) := by
  induction lines generalizing line with
  | nil =>
      rw [List.intercalate_singleton, encoded_append]
      rfl
  | cons next lines ih =>
      rw [List.intercalate_cons_cons, List.append_assoc, List.append_assoc, encoded_append,
        encoded_append, ih]
      rfl

/-- The added lines in front of the given ones. -/
def hostLines (host : Text) (headers : List Text) : List Text :=
  if headers.any isHost then [] else [txt "Host: " ++ host]

/-- The added lines behind the given ones. -/
def lengthLines (n : ℕ) (headers : List Text) : List Text :=
  if n ≠ 0 ∧ headers.any isLength = false then
    [txt "Content-Length: " ++ txt (toString n)] else []

/-- What is accepted, and what it becomes. -/
structure Accepted (D : Decimals) (method path host : Text) (headers : List Text)
    (body bytes : List UInt8) : Prop where
  passes : ∀ line ∈ headers, Passes D body.length line
  hosts : (headers.filter isHost).length ≤ 1
  latin1 : ∀ line ∈ linesOf method path host headers body.length (headers.any isLength),
    ∀ c ∈ line, c.toNat < 256
  bytes : bytes = writeHead ((linesOf method path host headers body.length
    (headers.any isLength)).map encoded) ++ body

theorem mem_intercalate {sep : Text} {c : Char} (mem : line ∈ lines) (inside : c ∈ line) :
    c ∈ sep.intercalate lines := by
  induction lines with
  | nil => exact absurd mem List.not_mem_nil
  | cons first lines ih =>
      cases lines with
      | nil =>
          rw [List.intercalate_singleton]
          exact List.mem_singleton.1 mem ▸ inside
      | cons second lines =>
          rw [List.intercalate_cons_cons]
          rcases List.mem_cons.1 mem with rfl | later
          · exact List.mem_append_left _ (List.mem_append_left _ inside)
          · exact List.mem_append_right _ (ih later)

theorem accepted (ok : requestBytes D method path host headers body = .ok bytes) :
    Accepted D method path host headers body bytes := by
  rw [requestBytes] at ok
  obtain ⟨-, -, ok⟩ := of_bind_ok ok
  obtain ⟨-, -, ok⟩ := of_bind_ok ok
  split at ok
  · cases ok
  · split at ok
    · cases ok
    · split at ok
      · cases ok
      · obtain ⟨counted, passed, ok⟩ := of_bind_ok ok
        obtain ⟨passes, rfl⟩ := passes_of_checkHeaders passed
        split at ok
        · cases ok
        · rename_i one
          dsimp only at ok
          split at ok
          · cases ok
          · rename_i head encodes
            cases ok
            rw [encodeLatin1] at encodes
            split at encodes
            · rename_i small
              have small := List.all_eq_true.1 small
              refine ⟨passes, not_lt.1 one, fun line mem c inside =>
                of_decide_eq_true (small c (List.mem_append_left _ (mem_intercalate mem inside))),
                ?_⟩
              cases encodes
              exact congrArg (· ++ body) (encoded_joined _ _)
            · cases encodes

end Accepted

/-! ## Lengths -/

section Lengths

variable {D : Decimals} {s : Text} {n : ℕ}

theorem toChars_toString (n : ℕ) : txt (toString n) = Nat.toDigits 10 n := Nat.toList_repr

theorem digit_bounds {c : Char} (digit : c.isDigit = true) : 48 ≤ c.toNat ∧ c.toNat ≤ 57 := by
  simpa [Char.isDigit, UInt32.le_iff_toNat_le] using digit

theorem isDigit_encodeChar {c : Char} (small : c.toNat < 256) :
    Message.isDigit (encodeChar c) = true ↔ 48 ≤ c.toNat ∧ c.toNat ≤ 57 := by
  have code := toNat_encodeChar small
  have low : (48 : UInt8) ≤ encodeChar c ↔ 48 ≤ c.toNat := by
    rw [UInt8.le_iff_toNat_le, code]
    rfl
  have high : encodeChar c ≤ (57 : UInt8) ↔ c.toNat ≤ 57 := by
    rw [UInt8.le_iff_toNat_le, code]
    rfl
  rw [Message.isDigit, Bool.and_eq_true, decide_eq_true_eq, decide_eq_true_eq, low, high]

theorem decimal_encoded (small : ∀ c ∈ s, c.toNat < 256) :
    Message.decimal (encoded s) = s.foldl (fun n c => 10 * n + (c.toNat - 48)) 0 := by
  have fold : ∀ start, (encoded s).foldl (fun n b => 10 * n + (b.toNat - 48)) start =
      s.foldl (fun n c => 10 * n + (c.toNat - 48)) start := by
    induction s with
    | nil => exact fun _ => rfl
    | cons c s ih =>
        intro start
        have rest := ih fun d mem => small d (List.mem_cons_of_mem _ mem)
        have code := toNat_encodeChar (small c List.mem_cons_self)
        show (encoded s).foldl _ (10 * start + ((encodeChar c).toNat - 48)) = _
        rw [rest, code]
        rfl
  exact fold 0

/-- The digits of a number are read as that number. -/
theorem decimal_toString (n : ℕ) :
    (encoded (txt (toString n))).all Message.isDigit = true ∧
      Message.decimal (encoded (txt (toString n))) = n := by
  have digits : ∀ c ∈ Nat.toDigits 10 n, 48 ≤ c.toNat ∧ c.toNat ≤ 57 := fun c mem =>
    digit_bounds (Nat.isDigit_of_mem_toDigits (by decide) (by decide) mem)
  have small : ∀ c ∈ Nat.toDigits 10 n, c.toNat < 256 := fun c mem =>
    Nat.lt_of_le_of_lt (digits c mem).2 (by decide)
  rw [toChars_toString]
  refine ⟨List.all_eq_true.2 (all_encoded.2 fun c mem =>
    (isDigit_encodeChar (small c mem)).2 (digits c mem)), ?_⟩
  rw [decimal_encoded small]
  exact Nat.ofDigitChars_ten_toDigits

theorem digit_byte {b : UInt8} (digit : Message.isDigit b = true) :
    isBlank b = false ∧ isFieldByte b = true := by
  have all : ∀ n < 256, Message.isDigit (UInt8.ofNat n) = true →
      isBlank (UInt8.ofNat n) = false ∧ isFieldByte (UInt8.ofNat n) = true := by
    decide +kernel
  have here := all b.toNat b.toNat_lt
  rw [UInt8.ofNat_toNat] at here
  exact here digit

theorem dropWhile_of_imp {α : Type} {p q : α → Bool} {l : List α}
    (imp : ∀ a ∈ l, p a = true → q a = true)
    (stop : ∀ a, (l.dropWhile p).head? = some a → q a = false) :
    l.dropWhile q = l.dropWhile p := by
  induction l with
  | nil => rfl
  | cons a l ih =>
      cases drops : p a with
      | true =>
          rw [List.dropWhile_cons_of_pos drops] at stop ⊢
          rw [List.dropWhile_cons_of_pos (imp a List.mem_cons_self drops),
            ih (fun b mem => imp b (List.mem_cons_of_mem _ mem)) stop]
      | false =>
          have kept : ¬ p a = true := by simp [drops]
          rw [List.dropWhile_cons_of_neg kept] at stop ⊢
          rw [List.dropWhile_cons_of_neg (by simp [stop a rfl])]

theorem isSpace_of_isBlank {c : Char} (small : c.toNat < 256)
    (blank : isBlank (encodeChar c) = true) : isSpace c = true := by
  have all : ∀ n < 256, isBlank (UInt8.ofNat n) = true → isSpace (Char.ofNat n) = true := by
    decide +kernel
  have here := all c.toNat small blank
  rwa [Char.ofNat_toNat] at here

theorem isSpace_of_isDigit {c : Char} (small : c.toNat < 256)
    (digit : Message.isDigit (encodeChar c) = true) : isSpace c = false := by
  have all : ∀ n < 256, Message.isDigit (UInt8.ofNat n) = true →
      isSpace (Char.ofNat n) = false := by
    decide +kernel
  have here := all c.toNat small digit
  rwa [Char.ofNat_toNat] at here

/-- Digits between blanks are what both readings of a value leave. -/
theorem trim_encoded (small : ∀ c ∈ s, c.toNat < 256)
    (digits : (trim (encoded s)).all Message.isDigit = true) :
    trim (encoded s) = encoded (strip s) := by
  let p : Char → Bool := fun c => isBlank (encodeChar c)
  have front : (encoded s).dropWhile isBlank = encoded (s.dropWhile p) := List.dropWhile_map
  have both : trim (encoded s) = encoded ((s.dropWhile p).rdropWhile p) := by
    rw [trim, front, List.rdropWhile, List.rdropWhile, encoded, encoded, List.map_reverse,
      ← List.map_reverse, List.dropWhile_map]
    rfl
  rw [both] at digits ⊢
  set w := s.dropWhile p with behind
  have digit : ∀ c ∈ w.rdropWhile p, isSpace c = false := by
    intro c mem
    have inside : c ∈ s :=
      (List.dropWhile_suffix p).subset ((List.rdropWhile_prefix p _).subset mem)
    exact isSpace_of_isDigit (small c inside) (all_encoded.1 (List.all_eq_true.1 digits) c mem)
  have imp : ∀ c ∈ s, p c = true → isSpace c = true := fun c mem =>
    isSpace_of_isBlank (small c mem)
  have first : s.dropWhile isSpace = w := by
    refine dropWhile_of_imp imp fun c head => ?_
    have kept : p c = false := by
      have stop := List.head?_dropWhile_not p s
      rw [head] at stop
      exact stop
    have whole := List.rdropWhile_append_rtakeWhile (p := p) (l := w)
    have mem : c ∈ w := List.mem_of_head? head
    rw [← whole] at mem
    rcases List.mem_append.1 mem with inside | after
    · exact digit c inside
    · exact absurd (List.mem_rtakeWhile_imp after) (by simp [kept])
  have last : w.rdropWhile isSpace = w.rdropWhile p := by
    refine congrArg List.reverse (dropWhile_of_imp ?_ fun c head => digit c ?_)
    · exact fun c mem => imp c ((List.dropWhile_suffix p).subset (List.mem_reverse.1 mem))
    · exact List.mem_reverse.2 (List.mem_of_head? head)
  rw [strip, first, last]

/-- What `int` makes of digits that it reads. -/
theorem int_digits (small : ∀ c ∈ s, c.toNat < 256) (some_ : s ≠ [])
    (digits : ∀ c ∈ s, Message.isDigit (encodeChar c) = true) {m : ℤ} (read : int D s = some m) :
    m = (Message.decimal (encoded s) : ℤ) := by
  have bounds : ∀ c ∈ s, 48 ≤ c.toNat ∧ c.toNat ≤ 57 := fun c mem =>
    (isDigit_encodeChar (small c mem)).1 (digits c mem)
  have value : ∀ c ∈ s, D.digit c = some (c.toNat - 48) := fun c mem => by
    rw [D.latin1 c (small c mem), if_pos (bounds c mem)]
  have whole : s.splitOn '_' = [s] := by
    refine List.splitOn_eq_singleton fun mem => ?_
    exact absurd (bounds _ mem) (by decide)
  have plain : int D s = (digitsOf D s).map fun n => (n : ℤ) := by
    rw [int, strip_eq_self fun c mem => isSpace_of_isDigit (small c mem) (digits c mem)]
    split
    · exact absurd (bounds _ List.mem_cons_self) (by decide)
    · exact absurd (bounds _ List.mem_cons_self) (by decide)
    · rfl
  rw [plain] at read
  obtain ⟨n, counted, rfl⟩ := Option.map_eq_some_iff.1 read
  rw [digitsOf, whole] at counted
  split at counted
  · cases counted
    rw [decimal_encoded small, List.flatten_singleton]
    refine congrArg _ (List.foldl_ext _ _ _ fun n c mem => ?_)
    rw [value c mem]
    rfl
  · contradiction

end Lengths

end Hx.Issue
