import Hx.Send.Request
import Hx.Policy.Verdict
import Hx.Library.Pieces

/-!
# The URL and the wire of a parsed request

The URL `parse` builds has the frame's scheme, host and port, and both readers of it,
`Target.parse` for the policy and `portOf` for the adapter, read them back. The request
line that is issued reads back as the path and the query that were decided about.
-/

namespace Hx.Send

open Hx.Java Hx.Bridge Hx.Policy

variable {U : CaseMap} {D : DigitMap} {s host target : JString} {tls : Bool} {n : Nat}

/-! ## Numbers as text -/

theorem numberText_eq (n : Nat) : numberText n = (Nat.toDigits 10 n).map ch := by
  have digits : (toString n).toList = Nat.toDigits 10 n := Nat.toList_repr
  rw [numberText, js, digits]
  rfl

theorem digit_val {c : Char} (digit : c.isDigit = true) :
    (ch c).val = c.toNat ∧ 0x30 ≤ c.toNat ∧ c.toNat ≤ 0x39 := by
  obtain ⟨low, high⟩ : 0x30 ≤ c.toNat ∧ c.toNat ≤ 0x39 := by
    simpa [Char.isDigit, UInt32.le_iff_toNat_le] using digit
  refine ⟨?_, low, high⟩
  exact Nat.mod_eq_of_lt (by omega)

theorem isDigit_numberText {c : JChar} (h : c ∈ numberText n) : isDigit c = true := by
  rw [numberText_eq] at h
  obtain ⟨d, among, rfl⟩ := List.mem_map.1 h
  obtain ⟨value, low, high⟩ := digit_val (Nat.isDigit_of_mem_toDigits (by decide) (by decide) among)
  simp [isDigit, value, low, high]

theorem numberText_ne_nil (n : Nat) : numberText n ≠ [] := by
  simp [numberText_eq]

theorem length_numberText_le (small : n ≤ 65535) : (numberText n).length ≤ 5 := by
  rw [numberText_eq, List.length_map, Nat.length_toDigits_le_iff (by decide) (by decide)]
  omega

theorem decimal_numberText (n : Nat) : decimal (numberText n) = n := by
  have fold : ∀ (digits : List Char), (∀ c ∈ digits, c.isDigit = true) → ∀ start,
      (digits.map ch).foldl (fun n c => n * 10 + (c.val - 0x30)) start =
        Nat.ofDigitChars 10 digits start := by
    intro digits
    induction digits with
    | nil => simp
    | cons c digits ih =>
        intro all start
        have value := (digit_val (all c (.head _))).1
        rw [List.map_cons, List.foldl_cons, ih fun d among => all d (.tail _ among),
          Nat.ofDigitChars_cons, value, Nat.mul_comm]
        rfl
  rw [decimal, numberText_eq, fold _ fun c among =>
    Nat.isDigit_of_mem_toDigits (by decide) (by decide) among]
  exact Nat.ofDigitChars_ten_toDigits

/-- A port as a natural number. -/
def portNumber (port : Int64) : Nat := port.toInt.toNat

theorem js_port {port : Int64} (positive : ¬ port < 1) :
    js (toString port) = numberText (portNumber port) := by
  have low : 1 ≤ port.toInt := by
    have := Int64.le_iff_toInt_le.1 (Int64.not_lt.1 positive)
    simpa using this
  obtain ⟨m, nat⟩ := Int.eq_ofNat_of_zero_le (Int.le_trans (by decide) low)
  have text : toString port = toString m := by
    show toString port.toInt = _
    rw [nat]
    rfl
  rw [text, numberText, portNumber, nat]
  rfl

theorem portNumber_bounds {port : Int64} (valid : ¬ (port < 1 ∨ 65535 < port)) :
    1 ≤ portNumber port ∧ portNumber port ≤ 65535 ∧ (portNumber port : Int) = port.toInt := by
  have low := Int64.le_iff_toInt_le.1 (Int64.not_lt.1 fun h => valid (.inl h))
  have high := Int64.le_iff_toInt_le.1 (Int64.not_lt.1 fun h => valid (.inr h))
  have one : (1 : Int64).toInt = 1 := rfl
  have top : (65535 : Int64).toInt = 65535 := rfl
  unfold portNumber
  omega

/-! ## The URL read by the policy -/

theorem indexOf_scheme (tls : Bool) (rest : JString) :
    indexOf (js "://") (schemeText tls ++ js "://" ++ rest) = some (schemeText tls).length := by
  cases tls <;> rfl

/-- Text that is already lower case keeps its characters. -/
theorem lower_eq_self (ascii : s.all fun c => c.val < 0x80 ∧ lowerAscii c.val = c.val) :
    lower U s = s := by
  induction s with
  | nil => rfl
  | cons c s ih =>
      rw [List.all_cons, Bool.and_eq_true, decide_eq_true_eq] at ascii
      obtain ⟨⟨small, fixed⟩, rest⟩ := ascii
      rw [lower_cons_ascii small, fixed, ih rest]
      congr 1
      exact Fin.ext (Nat.mod_eq_of_lt c.isLt)

theorem lower_scheme (tls : Bool) : lower U (schemeText tls) = schemeText tls := by
  cases tls <;> exact lower_eq_self (by decide)

/-- An ASCII character of a string is folded by itself. -/
theorem mem_lower_of_ascii {c : JChar} (small : c.val < 0x80) (h : c ∈ s) :
    Fin.ofNat 65536 (lowerAscii c.val) ∈ lower U s := by
  obtain ⟨before, after, rfl⟩ := List.append_of_mem h
  rw [lower_append_ascii small, lower_cons_ascii small]
  exact List.mem_append_right _ (.head _)

/-- What `checkHostChars` let through. -/
theorem of_checkHostChars {url : JString} (h : checkHostChars host url = none) :
    host ≠ [] ∧ host.head? ≠ some dot ∧ ∀ c ∈ host, isHostChar c = true := by
  unfold checkHostChars at h
  split at h
  · cases h
  · rename_i nonempty
    split at h
    · cases h
    · rename_i labels
      split at h
      · rename_i chars
        refine ⟨by simpa using nonempty, fun first => labels (.inl first), ?_⟩
        simpa using chars
      · cases h

/-- No character that ends or splits an authority is in a host whose fold is a hostname. -/
theorem host_clean {c : JChar} (chars : ∀ c ∈ lower U host, isHostChar c = true)
    (h : c ∈ host) : c ≠ slash ∧ c ≠ colon ∧ c ≠ ch '@' ∧ c ≠ ch ']' := by
  have refused : [slash, colon, ch '@', ch ']'].all (fun d =>
      d.val < 0x80 ∧ isHostChar (Fin.ofNat 65536 (lowerAscii d.val)) = false) = true := by decide
  have other : ∀ d ∈ [slash, colon, ch '@', ch ']'], c ≠ d := by
    rintro d among rfl
    obtain ⟨small, no⟩ := of_decide_eq_true (List.all_eq_true.1 refused c among)
    rw [chars _ (mem_lower_of_ascii small h)] at no
    cases no
  exact ⟨other _ (by simp), other _ (by simp), other _ (by simp), other _ (by simp)⟩

theorem Target.host_ok {url : JString} {t : Target} (h : Target.parse U url = .ok t) :
    checkHostChars t.host url = none := by
  unfold Target.parse at h
  split at h
  · cases h
  · cases h
  · simp only at h
    split at h
    · cases h
    · split at h
      · cases h
      · split at h
        · cases h
        · split at h
          · cases h
          · split at h
            · cases h
            · rename_i host
              cases h
              exact host

theorem idxOf?_append {c : JChar} {u : JString} (clean : c ∉ u) (v : JString) :
    (u ++ c :: v).idxOf? c = some u.length := by
  induction u with
  | nil => simp [List.idxOf?_cons]
  | cons d u ih =>
      have other : d ≠ c := fun same => clean (same ▸ .head _)
      rw [List.cons_append, List.idxOf?_cons, if_neg (by simpa using other),
        ih fun among => clean (.tail _ among)]
      rfl

theorem idxOf?_none {c : JChar} {u : JString} (clean : c ∉ u) : u.idxOf? c = none :=
  List.idxOf?_eq_none_iff.2 clean

/-- The port an authority without its own port text has. -/
def ownPort (tls : Bool) : Nat := if tls then 443 else 80

theorem portText_cases (tls : Bool) {port : Int64} (valid : ¬ (port < 1 ∨ 65535 < port)) :
    portText tls port = [] ∧ portNumber port = ownPort tls ∨
      portText tls port = colon :: numberText (portNumber port) := by
  unfold portText
  split
  · rename_i default
    refine .inl ⟨rfl, ?_⟩
    cases tls <;> simp at default <;> subst default <;> rfl
  · exact .inr (by rw [js_port fun h => valid (.inl h)])

theorem parsePort_numberText {url : JString} {port : Int64} (valid : ¬ (port < 1 ∨ 65535 < port)) :
    Target.parsePort url (numberText (portNumber port)) = .ok (portNumber port) := by
  obtain ⟨low, high, -⟩ := portNumber_bounds valid
  have digits : (numberText (portNumber port)).all isDigit = true :=
    List.all_eq_true.2 fun c => isDigit_numberText
  have short := length_numberText_le high
  rw [Target.parsePort, if_neg (by simpa using numberText_ne_nil _), if_neg (by simp [digits]),
    if_neg (by omega), decimal_numberText, if_neg (by omega)]

/-- No delimiter but the port's colon is in the authority of a URL. -/
theorem authority_clean {port : Int64} {c : JChar}
    (clean : ∀ c ∈ host, c ≠ slash ∧ c ≠ colon ∧ c ≠ ch '@' ∧ c ≠ ch ']')
    (valid : ¬ (port < 1 ∨ 65535 < port)) (h : c ∈ host ++ portText tls port) :
    c ≠ slash ∧ c ≠ ch '@' ∧ c ≠ ch ']' := by
  have refused : [slash, ch '@', ch ']'].all (fun d => d ≠ colon ∧ isDigit d = false) = true := by
    decide
  obtain among | among := List.mem_append.1 h
  · obtain ⟨slash, -, at', bracket⟩ := clean c among
    exact ⟨slash, at', bracket⟩
  · have other : ∀ d ∈ [slash, ch '@', ch ']'], c ≠ d := by
      rintro d listed rfl
      obtain ⟨plain, letter⟩ := of_decide_eq_true (List.all_eq_true.1 refused c listed)
      obtain ⟨own, -⟩ | own := portText_cases tls valid
      · rw [own] at among
        cases among
      · rw [own] at among
        obtain rfl | digit := List.mem_cons.1 among
        · exact plain rfl
        · rw [isDigit_numberText digit] at letter
          cases letter
    exact ⟨other _ (by simp), other _ (by simp), other _ (by simp)⟩

theorem takeWhile_append_stop {p : JChar → Bool} {u v : JString} (inside : ∀ c ∈ u, p c = true)
    (stop : ∀ c, v.head? = some c → p c = false) : (u ++ v).takeWhile p = u := by
  rw [List.takeWhile_append_of_pos inside]
  cases v with
  | nil => simp
  | cons c v => simp [stop c rfl]

/-- The target of a URL that was built from a host without delimiters is what it was built
from. -/
theorem Target.parse_urlOf {port : Int64} {t : Target}
    (clean : ∀ c ∈ host, c ≠ slash ∧ c ≠ colon ∧ c ≠ ch '@' ∧ c ≠ ch ']')
    (valid : ¬ (port < 1 ∨ 65535 < port)) (origin : target.head? = some slash)
    (h : Target.parse U (urlOf tls host port target) = .ok t) :
    t = ⟨schemeText tls, lower U host, portNumber port,
      target.takeWhile fun c => c != question⟩ := by
  have shape : urlOf tls host port target =
      schemeText tls ++ js "://" ++ ((host ++ portText tls port) ++ target) := by
    simp [urlOf, List.append_assoc]
  obtain ⟨n, length⟩ : ∃ n, (schemeText tls).length = n + 1 := by
    cases tls <;> exact ⟨_, rfl⟩
  have first : (schemeText tls ++ js "://" ++ ((host ++ portText tls port) ++ target)).take
      (n + 1) = schemeText tls := by
    rw [← length, List.append_assoc, List.take_left]
  have second : (schemeText tls ++ js "://" ++ ((host ++ portText tls port) ++ target)).drop
      (n + 1 + 3) = (host ++ portText tls port) ++ target := by
    have long : (schemeText tls ++ js "://").length = n + 1 + 3 := by
      rw [List.length_append, length]
      rfl
    rw [← long, List.drop_left]
  obtain ⟨tail, rfl⟩ : ∃ tail, target = slash :: tail := by
    cases target with
    | nil => cases origin
    | cons c tail =>
        cases origin
        exact ⟨tail, rfl⟩
  have authority : slash ∉ host ++ portText tls port ∧ ch '@' ∉ host ++ portText tls port :=
    ⟨fun among => (authority_clean clean valid among).1 rfl,
      fun among => (authority_clean clean valid among).2.1 rfl⟩
  unfold Target.parse at h
  rw [shape, indexOf_scheme, length] at h
  simp only [first, second, lower_scheme, idxOf?_append authority.1, List.take_left,
    List.drop_left, if_neg authority.2] at h
  have scheme : isSchemeOf (schemeText tls) = true := by cases tls <;> decide
  have cut : (host ++ portText tls port).takeWhile (fun c => c != ch ':') = host := by
    refine takeWhile_append_stop (fun c among => bne_iff_ne.2 (clean c among).2.1) ?_
    intro c first
    obtain ⟨own, -⟩ | own := portText_cases tls valid
    · rw [own] at first
      cases first
    · rw [own] at first
      cases first
      rfl
  have outside : ch ':' ∉ host := fun among => (clean _ among).2.1 rfl
  rw [scheme, cut] at h
  obtain ⟨own, same⟩ | own := portText_cases tls valid
  · rw [own, List.append_nil, idxOf?_none outside] at h
    have own' : defaultPort (schemeText tls) = portNumber port := by
      cases tls <;> exact same.symm
    simp only [own'] at h
    split at h
    · cases h
    · split at h
      · cases h
      · cases h
        rfl
  · have at' : (host ++ portText tls port).idxOf? (ch ':') = some host.length := by
      rw [own]
      exact idxOf?_append outside _
    have after : (host ++ portText tls port).drop (host.length + 1) =
        numberText (portNumber port) := by
      rw [own]
      simp
    rw [at'] at h
    simp only [after, parsePort_numberText valid] at h
    split at h
    · cases h
    · split at h
      · cases h
      · cases h
        rfl

/-! ## The URL read by the adapter -/

theorem lastIndexOf_none {c : JChar} {u : JString} (clean : c ∉ u) : lastIndexOf c u = none := by
  rw [lastIndexOf, idxOf?_none (by simpa using clean)]
  rfl

theorem lastIndexOf_append {c : JChar} {v : JString} (clean : c ∉ v) (u : JString) :
    lastIndexOf c (u ++ c :: v) = some u.length := by
  have reversed : (u ++ c :: v).reverse = v.reverse ++ c :: u.reverse := by simp
  rw [lastIndexOf, reversed, idxOf?_append (by simpa using clean)]
  simp

theorem decimalOf_numberText (D : DigitMap) (n : Nat) : decimalOf D (numberText n) = some n := by
  have fold : ∀ (s : JString), (∀ c ∈ s, isDigit c = true) → ∀ start,
      s.foldl (fun n c => n.bind fun n => (D.digit c).map fun d => n * 10 + d) (some start) =
        some (s.foldl (fun n c => n * 10 + (c.val - 0x30)) start) := by
    intro s
    induction s with
    | nil => exact fun _ _ => rfl
    | cons c s ih =>
        intro all start
        have digit := all c (.head _)
        rw [isDigit, Bool.and_eq_true, decide_eq_true_eq, decide_eq_true_eq] at digit
        rw [List.foldl_cons, List.foldl_cons, D.ascii c digit.1 digit.2]
        exact ih (fun d among => all d (.tail _ among)) _
  have all : ∀ c ∈ numberText n, isDigit c = true := fun c => isDigit_numberText
  obtain ⟨c, rest, text⟩ := List.exists_cons_of_ne_nil (numberText_ne_nil n)
  have value := fold (numberText n) all 0
  rw [text] at value
  rw [text, decimalOf, value, ← text]
  · exact congrArg some (decimal_numberText n)
  · simp

theorem parseInt_numberText (D : DigitMap) (small : n ≤ 65535) :
    parseInt D (numberText n) = some (n : Int) := by
  obtain ⟨c, rest, text⟩ := List.exists_cons_of_ne_nil (numberText_ne_nil n)
  have digit : isDigit c = true := isDigit_numberText (n := n) (by simp [text])
  have unsigned : ∀ d, isDigit d = false → ((numberText n).head? == some d) = false := by
    rintro d letter
    rw [text, List.head?_cons]
    simp only [beq_eq_false_iff_ne, Ne, Option.some.injEq]
    rintro rfl
    rw [digit] at letter
    cases letter
  have minus := unsigned (ch '-') (by decide)
  have plus := unsigned (ch '+') (by decide)
  simp only [parseInt, minus, plus, Bool.or_self, Bool.false_eq_true, if_false,
    decimalOf_numberText]
  rw [Option.filter_some_pos (by simp; omega)]
  rfl

theorem secureOf_urlOf {req : HxRequest} {port : Int64}
    (built : req.url = urlOf tls host port target) : secureOf req = tls := by
  rw [secureOf, built, urlOf]
  cases tls <;> rfl

theorem portOf_urlOf {req : HxRequest} {port : Int64}
    (clean : ∀ c ∈ host, c ≠ slash ∧ c ≠ colon ∧ c ≠ ch '@' ∧ c ≠ ch ']')
    (valid : ¬ (port < 1 ∨ 65535 < port)) (origin : target.head? = some slash)
    (built : req.url = urlOf tls host port target) :
    portOf D req = .ok port.toInt := by
  obtain ⟨-, small, number⟩ := portNumber_bounds valid
  have cut : (req.url.drop (if tls then 8 else 7)).takeWhile (fun c => c != slash) =
      host ++ portText tls port := by
    have rest : req.url.drop (if tls then 8 else 7) = (host ++ portText tls port) ++ target := by
      rw [built, urlOf, List.append_assoc, List.append_assoc, List.append_assoc,
        List.append_assoc]
      cases tls <;> rfl
    rw [rest]
    refine takeWhile_append_stop (fun c among => ?_) fun c first => ?_
    · exact bne_iff_ne.2 (authority_clean clean valid among).1
    · rw [origin] at first
      cases first
      rfl
  have bracket : ch ']' ∉ host ++ portText tls port :=
    fun among => (authority_clean clean valid among).2.2 rfl
  simp only [portOf, secureOf_urlOf built, cut, lastIndexOf_none bracket, Option.any_none,
    Bool.false_eq_true, if_false]
  obtain ⟨own, same⟩ | own := portText_cases tls valid
  · have outside : colon ∉ host ++ portText tls port := by
      rw [own, List.append_nil]
      exact fun among => (clean _ among).2.1 rfl
    rw [lastIndexOf_none outside, ← number, same]
    cases tls <;> rfl
  · have digits : colon ∉ numberText (portNumber port) := by
      intro among
      have digit := isDigit_numberText among
      exact absurd digit (by decide)
    rw [own, lastIndexOf_append digits]
    have after : (host ++ colon :: numberText (portNumber port)).drop (host.length + 1) =
        numberText (portNumber port) := by simp
    simp only [after, parseInt_numberText D small, number]

/-! ## The parts of a request line -/

theorem mem_splitLines {line : JString} (h : line ∈ splitLines s) :
    lf ∉ line ∧ ∀ c ∈ line, c ∈ s := by
  induction s generalizing line with
  | nil =>
      obtain rfl := List.mem_singleton.1 h
      simp
  | cons c s ih =>
      have later : ∀ line ∈ splitLines s, lf ∉ line ∧ ∀ d ∈ line, d ∈ c :: s :=
        fun line among => ⟨(ih among).1, fun d inside => .tail _ ((ih among).2 d inside)⟩
      unfold splitLines at h
      split at h
      · obtain rfl | h := List.mem_cons.1 h
        · simp
        · exact later line h
      · rename_i other
        split at h
        · obtain rfl | h := List.mem_cons.1 h
          · simp
          · exact later line (List.mem_of_mem_tail h)
        · cases lines : splitLines s with
          | nil => simp [lines] at h
          | cons first rest =>
              rw [lines, List.modifyHead_cons] at h
              obtain rfl | h := List.mem_cons.1 h
              · obtain ⟨clean, inside⟩ := later first (lines ▸ .head _)
                refine ⟨?_, ?_⟩
                · rw [List.mem_cons, not_or]
                  exact ⟨fun same => other same.symm, clean⟩
                · exact List.forall_mem_cons.2 ⟨.head _, inside⟩
              · exact later line (lines ▸ .tail _ h)

theorem mem_splitSpaces {line part : JString} (h : part ∈ splitSpaces line) :
    space ∉ part ∧ ∀ c ∈ part, c ∈ line :=
  Library.mem_splitOn ((List.rdropWhile_prefix List.isEmpty _).subset h)

theorem latin1_lt {bytes : List UInt8} {c : JChar} (h : c ∈ latin1 bytes) : c.val < 0x100 := by
  obtain ⟨b, -, rfl⟩ := List.mem_map.1 h
  have bound := b.toNat_lt
  rw [Fin.val_ofNat, Nat.mod_eq_of_lt (by omega)]
  exact bound

/-- A method or a target as a request line of ISO-8859-1 text holds it. -/
def Token (s : JString) : Prop := space ∉ s ∧ lf ∉ s ∧ ∀ c ∈ s, c.val < 0x100

/-- What `parse` makes of the frame. -/
structure Parsed (header : Header) (req : HxRequest) (target : JString) : Prop where
  host : targetHost header = some req.host
  port : ¬ (targetPort header < 1 ∨ 65535 < targetPort header)
  origin : target.head? = some slash
  url : req.url = urlOf (tlsOf header) req.host (targetPort header) target
  path : req.path = target.takeWhile fun c => c != question
  query : req.query = (target.dropWhile fun c => c != question).drop 1
  method : Token req.method
  token : Token target

theorem parse_ok {header : Header} {body : List UInt8} {req : HxRequest}
    (h : parse header body = .ok req) : ∃ target, Parsed header req target := by
  unfold parse at h
  split at h
  · cases h
  · rename_i host named
    simp only at h
    split at h
    · cases h
    · rename_i valid
      split at h
      · rename_i line fields lines
        split at h
        · cases h
        · unfold requestOf at h
          split at h
          · rename_i method target parts split_
            split at h
            · cases h
            · rename_i origin
              split at h
              · cases h
              · cases h
                have listed : line ∈ splitLines ((latin1 body).take (headOf (latin1 body)).1) := by
                  rw [lines]
                  exact .head _
                have clean := mem_splitLines listed
                have token : ∀ part ∈ splitSpaces line, Token part := by
                  intro part among
                  obtain ⟨unspaced, inside⟩ := mem_splitSpaces among
                  refine ⟨unspaced, fun broken => clean.1 (inside _ broken), ?_⟩
                  intro c member
                  exact latin1_lt (List.mem_of_mem_take (clean.2 c (inside c member)))
                exact ⟨target, {
                  host := named
                  port := valid
                  origin := not_not.1 origin
                  url := rfl
                  path := rfl
                  query := rfl
                  method := token method (split_ ▸ .head _)
                  token := token target (split_ ▸ .tail _ (.head _)) }⟩
          · cases h
      · cases h

/-! ## The request line on the wire -/

/-- The request target a server reads off some bytes. -/
def requestTarget (wire : List UInt8) : Option JString :=
  (splitLines (latin1 wire)).head?.bind fun line => (splitSpaces line)[1]?

theorem latin1Bytes_append {u : JString} (text : ∀ c ∈ u, c.val < 0x100) (v : JString) :
    latin1Bytes (u ++ v) = u.map latin1Byte ++ latin1Bytes v := by
  induction u with
  | nil => rfl
  | cons c u ih =>
      have small := text c (.head _)
      have single : isHighSurrogate c = false := by
        simp only [isHighSurrogate, Bool.and_eq_false_iff, decide_eq_false_iff_not]
        omega
      have step : ∀ w, latin1Bytes (c :: w) = latin1Byte c :: latin1Bytes w := by
        intro w
        cases w with
        | nil => rfl
        | cons next w => simp [latin1Bytes, single]
      rw [List.cons_append, step, ih fun d among => text d (.tail _ among)]
      rfl

theorem latin1_map_latin1Byte {u : JString} (text : ∀ c ∈ u, c.val < 0x100) :
    latin1 (u.map latin1Byte) = u := by
  induction u with
  | nil => rfl
  | cons c u ih =>
      have small := text c (.head _)
      have byte : (Fin.ofNat 65536 (latin1Byte c).toNat : JChar) = c := by
        apply Fin.ext
        rw [latin1Byte, if_pos small, Fin.val_ofNat,
          UInt8.toNat_ofNat_of_lt' (by simpa using small)]
        exact Nat.mod_eq_of_lt c.isLt
      rw [List.map_cons, latin1, List.map_cons, byte]
      exact congrArg (c :: ·) (ih fun d among => text d (.tail _ among))

theorem splitLines_append {line : JString} (clean : lf ∉ line) (rest : JString) :
    splitLines (line ++ crlf ++ rest) = line :: splitLines rest := by
  induction line with
  | nil => rfl
  | cons c line ih =>
      have other : c ≠ lf := fun same => clean (same ▸ .head _)
      have unpaired : (line ++ crlf ++ rest).head? ≠ some lf := by
        cases line with
        | nil => exact fun same => absurd (Option.some.inj same) (by decide)
        | cons d line =>
            exact fun same => clean (.tail _ (Option.some.inj same ▸ .head _))
      rw [List.cons_append, List.cons_append, splitLines, if_neg other,
        if_neg fun paired => unpaired paired.2, ih fun among => clean (.tail _ among)]
      rfl

theorem splitSpaces_line {method target : JString} (first : space ∉ method)
    (second : space ∉ target) :
    splitSpaces (method ++ space :: (target ++ space :: js "HTTP/1.1")) =
      [method, target, js "HTTP/1.1"] := by
  have third : space ∉ js "HTTP/1.1" := by decide
  rw [splitSpaces, List.splitOn_append_cons_self_of_not_mem first,
    List.splitOn_append_cons_self_of_not_mem second, List.splitOn_eq_singleton third]
  exact List.rdropWhile_eq_self_iff.2 fun _ => (by decide : ¬ (js "HTTP/1.1").isEmpty = true)

/-- The target a request line is written with. -/
def targetText (req : HxRequest) : JString :=
  req.path ++ if req.query.isEmpty then [] else question :: req.query

/-- The request line without its end. -/
def lineText (req : HxRequest) : JString :=
  req.method ++ space :: (targetText req ++ space :: js "HTTP/1.1")

theorem requestLine_eq (req : HxRequest) : requestLine req = lineText req ++ crlf := by
  have version : js " HTTP/1.1" = space :: js "HTTP/1.1" := rfl
  simp [requestLine, lineText, targetText, version]

/-- What holds of the characters of two tokens and of the version holds of a request line. -/
theorem forall_lineText {P : JChar → Prop} {req : HxRequest} (first : ∀ c ∈ req.method, P c)
    (second : ∀ c ∈ targetText req, P c) (blank : P space) (version : ∀ c ∈ js "HTTP/1.1", P c) :
    ∀ c ∈ lineText req, P c := by
  intro c among
  rw [lineText] at among
  simp only [List.mem_append, List.mem_cons] at among
  obtain among | rfl | among | rfl | among := among
  · exact first c among
  · exact blank
  · exact second c among
  · exact blank
  · exact version c among

theorem lineText_lt {req : HxRequest} (method : Token req.method)
    (target : Token (targetText req)) : ∀ c ∈ lineText req, c.val < 0x100 := by
  have version : (js "HTTP/1.1").all (fun c => c.val < 0x100) = true := by decide
  refine forall_lineText method.2.2 target.2.2 (by decide) ?_
  simpa only [List.all_eq_true, decide_eq_true_eq] using version

theorem lf_not_mem_lineText {req : HxRequest} (method : Token req.method)
    (target : Token (targetText req)) : lf ∉ lineText req := by
  have version : (js "HTTP/1.1").all (fun c => c ≠ lf) = true := by decide
  have each := forall_lineText (P := fun c => c ≠ lf)
    (fun c among same => method.2.1 (same ▸ among)) (fun c among same => target.2.1 (same ▸ among))
    (by decide) (by simpa only [List.all_eq_true, decide_eq_true_eq] using version)
  exact fun among => each lf among rfl

theorem latin1_append (a b : List UInt8) : latin1 (a ++ b) = latin1 a ++ latin1 b :=
  List.map_append

/-- The request target on the wire is the path and the query the request was decided
with. -/
theorem requestTarget_wireBytes {req : HxRequest} (method : Token req.method)
    (target : Token (targetText req)) : requestTarget (wireBytes req) = some (targetText req) := by
  have ends : ∀ c ∈ crlf, c.val < 0x100 := by
    have all : crlf.all (fun c => c.val < 0x100) = true := by decide
    simpa only [List.all_eq_true, decide_eq_true_eq] using all
  have text : ∀ c ∈ requestLine req, c.val < 0x100 := by
    intro c among
    rw [requestLine_eq] at among
    obtain among | among := List.mem_append.1 among
    · exact lineText_lt method target c among
    · exact ends c among
  have read : latin1 (wireBytes req) = requestLine req ++
      latin1 (latin1Bytes (headerText req.headers ++ crlf) ++ req.body) := by
    rw [wireBytes, List.append_assoc (requestLine req), latin1Bytes_append text, List.append_assoc,
      latin1_append, latin1_map_latin1Byte text]
  rw [requestTarget, read, requestLine_eq, splitLines_append (lf_not_mem_lineText method target),
    List.head?_cons, Option.bind_some, lineText, splitSpaces_line method.1 target.1]
  rfl

theorem compose_ok {upper : JChar → JChar} {req : HxRequest} {ident : Option Entry}
    {composed : Composed} (h : compose U upper req ident = .ok composed) :
    composed.wire = wireBytes composed.req ∧ composed.req.method = req.method ∧
      composed.req.url = req.url ∧ composed.req.host = req.host ∧
      composed.req.path = req.path ∧ composed.req.query = req.query := by
  cases ident with
  | none =>
      cases h
      exact ⟨rfl, rfl, rfl, rfl, rfl, rfl⟩
  | some ident =>
      simp only [compose] at h
      split at h
      · cases h
      · split at h
        · cases h
        · cases h
          exact ⟨rfl, rfl, rfl, rfl, rfl, rfl⟩

theorem Token.of_subset {t : JString} (token : Token t) (inside : ∀ c ∈ s, c ∈ t) : Token s :=
  ⟨fun among => token.1 (inside _ among), fun among => token.2.1 (inside _ among),
    fun c among => token.2.2 c (inside c among)⟩

/-- The target that is issued is the frame's, except for a `?` with nothing behind it. -/
theorem Parsed.target_text {header : Header} {req : HxRequest} (parsed : Parsed header req target) :
    Token (targetText req) ∧ (targetText req).takeWhile (fun c => c != question) = req.path ∧
      ((targetText req).dropWhile fun c => c != question).drop 1 = req.query := by
  have plain : ∀ c ∈ req.path, (c != question) = true := by
    intro c among
    rw [parsed.path] at among
    exact List.mem_takeWhile_imp (p := fun c => c != question) among
  have whole : req.path ++ target.dropWhile (fun c => c != question) = target := by
    rw [parsed.path]
    exact List.takeWhile_append_dropWhile
  unfold targetText
  cases rest : target.dropWhile fun c => c != question with
  | nil =>
      have query : req.query = [] := by rw [parsed.query, rest]; rfl
      rw [rest, List.append_nil] at whole
      simp only [query, List.isEmpty_nil, if_true, List.append_nil]
      refine ⟨whole ▸ parsed.token, List.takeWhile_eq_self_iff.2 plain, ?_⟩
      rw [List.dropWhile_eq_nil_iff.2 plain]
      rfl
  | cons c tail =>
      have mark : c = question := by
        have stops := List.head?_dropWhile_not (fun c => c != question) target
        rw [rest] at stops
        simpa using stops
      subst mark
      have query : req.query = tail := by rw [parsed.query, rest]; rfl
      have cut : ∀ tail, (req.path ++ question :: tail).takeWhile (fun c => c != question) =
          req.path := fun tail => takeWhile_append_stop plain fun c first => by
        cases first
        decide
      have left : ∀ tail, (req.path ++ question :: tail).dropWhile (fun c => c != question) =
          question :: tail := by
        intro tail
        rw [List.dropWhile_append_of_pos plain]
        rfl
      rw [rest] at whole
      cases tail with
      | nil =>
          simp only [query, List.isEmpty_nil, if_true, List.append_nil]
          refine ⟨parsed.token.of_subset fun c among => ?_, List.takeWhile_eq_self_iff.2 plain, ?_⟩
          · rw [← whole]
            exact List.mem_append_left _ among
          · rw [List.dropWhile_eq_nil_iff.2 plain]
            rfl
      | cons d tail =>
          simp only [query, List.isEmpty_cons, Bool.false_eq_true, if_false]
          exact ⟨whole ▸ parsed.token, cut _, by rw [left]; rfl⟩

end Hx.Send
