import Hx.Library.Message
import Hx.Redact.Params

/-!
# One rule in two alphabets

Two vocabularies that agree on the letters of a text cut it in the same places, so what one
makes of it is what the other does. The request line around a target adds nothing to be cut:
no `://` and no `?` can begin in the method or behind the blank that ends the target.
-/

namespace Hx.Redact

open Hx.Library

/-- A cut of a text that has been translated letter by letter. -/
def translate {α β : Type} (f : α → β) (c : Cut α) : Cut β := ⟨c.start, c.stop, c.text.map f⟩

theorem apply_translate {α β : Type} (f : α → β) (s : List α) (n : ℕ) (cs : List (Cut α)) :
    Cut.apply (s.map f) n (cs.map (translate f)) = (Cut.apply s n cs).map f := by
  induction cs generalizing n with
  | nil => exact List.map_drop.symm
  | cons c cs ih =>
      have start : (translate f c).start = c.start := rfl
      rw [List.map_cons]
      by_cases inside : c.start < n
      · rw [Cut.apply_skip inside, Cut.apply_skip (start ▸ inside), ih]
      · have outside := Nat.not_lt.1 inside
        rw [Cut.apply_cut outside, Cut.apply_cut (start ▸ outside), start, List.map_append,
          List.map_append, ← List.map_drop, ← List.map_take]
        congr 1
        exact ih c.stop

namespace Vocabulary

variable {α β : Type} {V : Vocabulary α} {W : Vocabulary β} {f : α → β} {s : List α} {p : ℕ}

/-- `W` reads the letters of `s` as `V` does. -/
structure Reads (V : Vocabulary α) (W : Vocabulary β) (f : α → β) (s : List α) : Prop where
  code : ∀ c ∈ s, W.code (f c) = V.code c
  named : ∀ name, name <:+: s → W.isCredentialParam (name.map f) = V.isCredentialParam name
  userinfo : V.userinfo.map f = W.userinfo
  param : V.param.map f = W.param

namespace Reads

theorem infix_ {t : List α} (h : Reads V W f s) (part : t <:+: s) : Reads V W f t :=
  ⟨fun c mem => h.code c (part.subset mem), fun name inside => h.named name (inside.trans part),
    h.userinfo, h.param⟩

theorem tail {c : α} (h : Reads V W f (c :: s)) : Reads V W f s :=
  h.infix_ (List.suffix_cons c s).isInfix

theorem drop (h : Reads V W f s) (n : ℕ) : Reads V W f (s.drop n) :=
  h.infix_ (List.drop_suffix n s).isInfix

theorem schemeAt (h : Reads V W f s) : W.schemeAt (s.map f) = V.schemeAt s := by
  induction s with
  | nil => rfl
  | cons c s ih =>
      have same : ((f c :: s.map f).take 3).map W.code = ((c :: s).take 3).map V.code := by
        rw [← List.map_cons, ← List.map_take, List.map_map]
        exact List.map_congr_left fun d mem => h.code d (List.mem_of_mem_take mem)
      rw [List.map_cons, Vocabulary.schemeAt, Vocabulary.schemeAt, same, ih h.tail]

theorem lastAt (h : Reads V W f s) : W.lastAt (s.map f) = V.lastAt s := by
  induction s with
  | nil => rfl
  | cons c s ih =>
      rw [List.map_cons, Vocabulary.lastAt, Vocabulary.lastAt, ih h.tail,
        h.code c List.mem_cons_self]

theorem takeWhile {g : α → Bool} {k : β → Bool} (same : ∀ c ∈ s, k (f c) = g c) :
    (s.map f).takeWhile k = (s.takeWhile g).map f := by
  induction s with
  | nil => rfl
  | cons c s ih =>
      rw [List.map_cons, List.takeWhile_cons, List.takeWhile_cons, same c List.mem_cons_self]
      cases g c with
      | false => rfl
      | true =>
          simp only [if_true, List.map_cons]
          rw [ih fun d mem => same d (List.mem_cons_of_mem _ mem)]

theorem authorityOf (h : Reads V W f s) : W.authorityOf (s.map f) = (V.authorityOf s).map f := by
  apply takeWhile
  intro c mem
  rw [endsAuthority, endsAuthority, h.code c mem]

theorem queryOf (h : Reads V W f s) : W.queryOf (s.map f) = (V.queryOf s).map f := by
  apply takeWhile
  intro c mem
  rw [endsQuery, endsQuery, h.code c mem]

theorem userinfoCuts (h : Reads V W f s) :
    W.userinfoCuts (s.map f) = (V.userinfoCuts s).map (translate f) := by
  rw [Vocabulary.userinfoCuts, Vocabulary.userinfoCuts, h.schemeAt]
  cases V.schemeAt s with
  | none => rfl
  | some scheme =>
      have rest := h.drop (scheme + 3)
      have authority : Reads V W f (V.authorityOf (s.drop (scheme + 3))) :=
        rest.infix_ (List.takeWhile_prefix _).isInfix
      simp only [← List.map_drop, rest.authorityOf, authority.lastAt]
      cases V.lastAt (V.authorityOf (s.drop (scheme + 3))) with
      | none => rfl
      | some at' =>
          simp only [List.map_singleton, translate, h.userinfo]

theorem findIdx {g : α → Bool} {k : β → Bool} (same : ∀ c ∈ s, k (f c) = g c) :
    (s.map f).findIdx k = s.findIdx g := by
  induction s with
  | nil => rfl
  | cons c s ih =>
      rw [List.map_cons, List.findIdx_cons, List.findIdx_cons, same c List.mem_cons_self,
        ih fun d mem => same d (List.mem_cons_of_mem _ mem)]

theorem findIdx? {g : α → Bool} {k : β → Bool} (same : ∀ c ∈ s, k (f c) = g c) :
    (s.map f).findIdx? k = s.findIdx? g := by
  induction s with
  | nil => rfl
  | cons c s ih =>
      rw [List.map_cons, List.findIdx?_cons, List.findIdx?_cons, same c List.mem_cons_self,
        ih fun d mem => same d (List.mem_cons_of_mem _ mem)]

theorem pairCut (h : Reads V W f s) :
    W.pairCut p (s.map f) = (V.pairCut p s).map (translate f) := by
  have eq : (s.map f).findIdx (fun c => W.code c == 61) = s.findIdx fun c => V.code c == 61 :=
    findIdx fun c mem => by rw [h.code c mem]
  have name := h.named (s.take (s.findIdx fun c => V.code c == 61)) (List.take_prefix _ _).isInfix
  rw [Vocabulary.pairCut, Vocabulary.pairCut, eq, List.length_map, ← List.map_take, name]
  by_cases cut : (s.findIdx fun c => V.code c == 61) + 1 < s.length ∧
      V.isCredentialParam (s.take (s.findIdx fun c => V.code c == 61)) = true
  · simp only [if_pos cut, List.map_singleton, translate, h.param]
  · simp only [if_neg cut, List.map_nil]

theorem queryCuts_plain (h : Reads V W f s) (plain : ∀ c ∈ s, V.code c ≠ 38) :
    W.queryCuts p (s.map f) = (V.queryCuts p s).map (translate f) := by
  have plain' : ∀ c ∈ s.map f, W.code c ≠ 38 := by
    intro c mem
    obtain ⟨d, inside, rfl⟩ := List.mem_map.1 mem
    rw [h.code d inside]
    exact plain d inside
  rw [queryCuts_single plain, queryCuts_single plain', h.pairCut]

theorem queryCuts (h : Reads V W f s) :
    W.queryCuts p (s.map f) = (V.queryCuts p s).map (translate f) := by
  induction s using query_induction (V := V) generalizing p with
  | single s plain => exact h.queryCuts_plain plain
  | more pair a t plain here ih =>
      have second : W.code (f a) = 38 := (h.code a (by simp)).trans here
      have first : Reads V W f pair := h.infix_ (List.prefix_append _ _).isInfix
      have rest : Reads V W f t := (h.infix_ (List.suffix_append _ _).isInfix).tail
      rw [List.map_append, List.map_cons, queryCuts_append_cons here, queryCuts_append_cons second,
        List.map_append, List.length_map, ih rest, first.queryCuts_plain plain]

theorem credentialParamCuts (h : Reads V W f s) :
    W.credentialParamCuts (s.map f) = (V.credentialParamCuts s).map (translate f) := by
  have question : (s.map f).findIdx? (fun c => W.code c == 63) =
      s.findIdx? fun c => V.code c == 63 := findIdx? fun c mem => by rw [h.code c mem]
  rw [Vocabulary.credentialParamCuts, Vocabulary.credentialParamCuts, question]
  cases s.findIdx? fun c => V.code c == 63 with
  | none => rfl
  | some q =>
      have rest := h.drop (q + 1)
      have query : Reads V W f (V.queryOf (s.drop (q + 1))) :=
        rest.infix_ (List.takeWhile_prefix _).isInfix
      simp only [← List.map_drop, rest.queryOf, query.queryCuts]

end Reads

/-! ## The cuts in their order -/

theorem Reads.inOrder (h : Reads V W f s) :
    W.inOrder (s.map f) = (V.inOrder s).map (translate f) := by
  rw [Vocabulary.inOrder, Vocabulary.inOrder, h.userinfoCuts, h.credentialParamCuts]
  cases V.userinfoCuts s with
  | nil => rfl
  | cons u us =>
      simp only [List.map_cons, List.map_append, Cut.below, Cut.above, List.filter_map]
      rfl

/-- What one vocabulary makes of a text is what the other makes of its translation. -/
theorem Reads.redact (h : Reads V W f s) : W.redact (s.map f) = (V.redact s).map f := by
  rw [redact_eq, redact_eq, sorted_eq, sorted_eq, h.inOrder, apply_translate]

/-! ## A text inside a line -/

variable {pre post t : List α}

/-- What may stand before a target in its line, and what may stand behind it. -/
structure Around (V : Vocabulary α) (pre post : List α) : Prop where
  before : ∀ c ∈ pre, V.code c ≠ 58 ∧ V.code c ≠ 63 ∧ V.code c ≠ 47
  blank : ∃ a rest, post = a :: rest ∧ V.code a = 32
  behind : ∀ c ∈ post, V.code c ≠ 58 ∧ V.code c ≠ 63

namespace Around

theorem starts (h : Around V pre post) : ∀ c, post.head? = some c → V.endsQuery c = true := by
  obtain ⟨a, rest, rfl, blank⟩ := h.blank
  rintro c ⟨⟩
  rw [endsQuery, blank]
  decide

theorem userinfoCuts_before (h : Around V pre post) :
    V.userinfoCuts (pre ++ t) = (V.userinfoCuts t).map (Cut.shift pre.length) := by
  apply userinfoCuts_append
  apply schemeAt_append_of_none (schemeAt_eq_none fun c mem => (h.before c mem).1)
  refine .inr fun c last => ?_
  obtain ⟨colon, -, slash⟩ := h.before c (List.mem_of_getLast? last)
  exact ⟨colon, slash⟩

theorem credentialParamCuts_before (h : Around V pre post) :
    V.credentialParamCuts (pre ++ t) = (V.credentialParamCuts t).map (Cut.shift pre.length) := by
  have none_ : pre.findIdx? (fun c => V.code c == 63) = none :=
    List.findIdx?_eq_none_iff.2 fun c mem => beq_eq_false_iff_ne.2 (h.before c mem).2.1
  rw [credentialParamCuts, credentialParamCuts, List.findIdx?_append, none_, Option.none_or]
  cases t.findIdx? fun c => V.code c == 63 with
  | none => rfl
  | some q =>
      have place : q + pre.length + 1 = pre.length + (q + 1) := by omega
      have rest : (pre ++ t).drop (pre.length + (q + 1)) = t.drop (q + 1) := by
        rw [← List.drop_drop, List.drop_left]
      simp only [Option.map_some, place, rest]
      exact queryCuts_shift _

end Around

/-- The line around a target is kept as it is. -/
theorem Around.redact (h : Around V pre post) (s : List α) :
    V.redact (pre ++ (s ++ post)) = pre ++ (V.redact s ++ post) := by
  have moved : ∀ cs : List (Cut α),
      Cut.apply (pre ++ (s ++ post)) 0 (cs.map (Cut.shift pre.length)) =
        pre ++ Cut.apply (s ++ post) 0 cs := by
    intro cs
    have none_ : ∀ c ∈ ([] : List (Cut α)), c.start ≤ pre.length ∧ c.stop ≤ pre.length :=
      fun c mem => absurd mem List.not_mem_nil
    exact Cut.apply_segments (Nat.zero_le _) none_ (s ++ post)
  rw [redact_eq, h.userinfoCuts_before, h.credentialParamCuts_before, ← List.map_append,
    sorted_shift, moved, ← redact_eq, redact_append_plain h.starts h.behind]

end Vocabulary

/-! ## The request line and the url -/

/-- A character of ASCII as its byte. -/
def letter (c : Char) : UInt8 := UInt8.ofNat c.toNat

theorem toNat_letter {c : Char} (ascii : c.toNat < 128) : (letter c).toNat = c.toNat :=
  toNat_ofNat ascii

theorem letter_inj {c d : Char} (ascii : c.toNat < 128) (ascii' : d.toNat < 128)
    (same : letter c = letter d) : c = d := by
  have codes := congrArg UInt8.toNat same
  rw [toNat_letter ascii, toNat_letter ascii'] at codes
  exact Char.toNat_inj.1 codes

theorem letters_inj {s t : List Char} (ascii : ∀ c ∈ s, c.toNat < 128)
    (ascii' : ∀ c ∈ t, c.toNat < 128) (same : s.map letter = t.map letter) : s = t := by
  induction s generalizing t with
  | nil => exact (List.map_eq_nil_iff.1 same.symm).symm
  | cons c s ih =>
      obtain ⟨d, t, rfl, first, rest⟩ := List.map_eq_cons_iff.1 same.symm
      rw [letter_inj (ascii' d List.mem_cons_self) (ascii c List.mem_cons_self) first,
        ih (fun e mem => ascii e (List.mem_cons_of_mem _ mem))
          (fun e mem => ascii' e (List.mem_cons_of_mem _ mem)) rest.symm]

/-- Both sides fold the case of ASCII alike. -/
theorem lowerChar_ascii {c : Char} (ascii : c.toNat < 128) :
    ∃ d, Python.lowerChar c = [d] ∧ d.toNat < 128 ∧ asciiLower (letter c) = letter d := by
  have all : ∀ n < 128, (Python.lowerChar (Char.ofNat n)).length = 1 ∧
      ((Python.lowerChar (Char.ofNat n)).all fun d =>
        d.toNat < 128 ∧ asciiLower (letter (Char.ofNat n)) = letter d) = true := by
    decide
  obtain ⟨one, each⟩ := all c.toNat ascii
  rw [Char.ofNat_toNat] at one each
  obtain ⟨d, only⟩ := List.length_eq_one_iff.1 one
  rw [only, List.all_eq_true] at each
  have plain := of_decide_eq_true (each d List.mem_cons_self)
  exact ⟨d, only, plain.1, plain.2⟩

theorem lower_ascii {s : List Char} (ascii : ∀ c ∈ s, c.toNat < 128) :
    (∀ c ∈ Python.lower s, c.toNat < 128) ∧
      (s.map letter).map asciiLower = (Python.lower s).map letter := by
  induction s with
  | nil => exact ⟨nofun, rfl⟩
  | cons c s ih =>
      obtain ⟨d, lowered, small, same⟩ := lowerChar_ascii (ascii c List.mem_cons_self)
      obtain ⟨rest, tail⟩ := ih fun e mem => ascii e (List.mem_cons_of_mem _ mem)
      have first : Python.lower (c :: s) = d :: Python.lower s := by
        rw [Python.lower, List.flatMap_cons, lowered]
        rfl
      rw [first]
      refine ⟨fun e mem => ?_, ?_⟩
      · obtain rfl | later := List.mem_cons.1 mem
        · exact small
        · exact rest e later
      · rw [List.map_cons, List.map_cons, List.map_cons, same, tail]

theorem params_ascii : ∀ wanted ∈ credentialParams, ∀ c ∈ wanted.toList, c.toNat < 128 := by
  have all : credentialParams.all (fun wanted => wanted.toList.all fun c => c.toNat < 128) =
      true := by decide
  exact fun wanted listed => List.all_iff_forall_prop.1 (List.all_eq_true.1 all wanted listed)

/-- A name is a credential's in a request line when it is one in a url. -/
theorem isCredentialParam_letters {name : List Char} (ascii : ∀ c ∈ name, c.toNat < 128) :
    isCredentialParam (name.map letter) = isCredentialParamText name := by
  obtain ⟨small, lowered⟩ := lower_ascii ascii
  have same : ∀ wanted ∈ credentialParams, asciiEqualsIgnoreCase wanted (name.map letter) =
      (Python.lower name == wanted.toList) := by
    intro wanted listed
    rw [asciiEqualsIgnoreCase, lowered, usAscii]
    apply Bool.eq_iff_iff.2
    rw [beq_iff_eq, beq_iff_eq]
    exact ⟨letters_inj small (params_ascii wanted listed), fun same => same ▸ rfl⟩
  rw [isCredentialParam, isCredentialParamText]
  apply Bool.eq_iff_iff.2
  rw [List.any_eq_true, List.any_eq_true]
  constructor
  · rintro ⟨wanted, listed, found⟩
    exact ⟨wanted, listed, same wanted listed ▸ found⟩
  · rintro ⟨wanted, listed, found⟩
    exact ⟨wanted, listed, (same wanted listed).trans found⟩

/-- The extension reads the letters of a url as the store does. -/
theorem reads_letters {url : List Char} (ascii : ∀ c ∈ url, c.toNat < 128) :
    Vocabulary.Reads records redactor letter url where
  code c mem := toNat_letter (ascii c mem)
  named _ inside := isCredentialParam_letters fun c mem => ascii c (inside.subset mem)
  userinfo := by decide
  param := by decide

/-- `M SP target SP HTTP/1.1`. -/
def requestLine (method target : Bytes) : Bytes :=
  method ++ 32 :: (target ++ usAscii " HTTP/1.1")

theorem tokenByte_plain {b : UInt8} (token : Message.isTokenByte b = true) :
    b.toNat ∉ [9, 10, 13, 32, 47, 58, 63] := by
  have all : ∀ n < 256, Message.isTokenByte (UInt8.ofNat n) = true →
      (UInt8.ofNat n).toNat ∉ [9, 10, 13, 32, 47, 58, 63] := by decide +kernel
  have found := all b.toNat b.toNat_lt
  rw [UInt8.ofNat_toNat] at found
  exact found token

theorem mem_method {method : Bytes} {b : UInt8} (token : Message.isToken method = true)
    (mem : b ∈ method) : b.toNat ∉ [9, 10, 13, 32, 47, 58, 63] :=
  tokenByte_plain (List.all_eq_true.1 (Bool.and_eq_true_iff.1 token).2 b mem)

/-- The method and the version around a target are nothing to redact, nor is the line's end. -/
theorem around_target {method ended : Bytes} (token : Message.isToken method = true)
    (ending : ended ∈ [[], [10], [13, 10]]) :
    Vocabulary.Around redactor (method ++ [32]) (usAscii " HTTP/1.1" ++ ended) where
  before b mem := by
    obtain inside | blank := List.mem_append.1 mem
    · have plain := mem_method token inside
      simp only [List.mem_cons, List.not_mem_nil, or_false, not_or] at plain
      exact ⟨plain.2.2.2.2.2.1, plain.2.2.2.2.2.2, plain.2.2.2.2.1⟩
    · cases List.mem_singleton.1 blank
      decide
  blank := ⟨32, usAscii "HTTP/1.1" ++ ended, rfl, rfl⟩
  behind b mem := by
    have ends : ∀ e ∈ [[], [10], [13, 10]], (usAscii " HTTP/1.1" ++ e).all (fun c : UInt8 =>
        c.toNat ≠ 58 ∧ c.toNat ≠ 63) = true := by decide
    exact of_decide_eq_true (List.all_eq_true.1 (ends ended ending) b mem)

theorem redactTarget_line {method ended : Bytes} (token : Message.isToken method = true)
    (ending : ended ∈ [[], [10], [13, 10]]) (target : Bytes) :
    redactTarget (requestLine method target ++ ended) =
      requestLine method (redactTarget target) ++ ended := by
  have parts : ∀ t : Bytes, requestLine method t ++ ended =
      (method ++ [32]) ++ (t ++ (usAscii " HTTP/1.1" ++ ended)) := by
    intro t
    rw [requestLine, List.append_assoc, List.append_assoc, List.cons_append, List.append_assoc]
    rfl
  rw [parts, parts, redactTarget, (around_target token ending).redact, redactTarget]

theorem redactTarget_letters {url : List Char} (ascii : ∀ c ∈ url, c.toNat < 128) :
    redactTarget (url.map letter) = (redactUrl url).map letter :=
  (reads_letters ascii).redact

theorem redactUrl_ascii {url : List Char} (ascii : ∀ c ∈ url, c.toNat < 128) :
    ∀ c ∈ redactUrl url, c.toNat < 128 := by
  have placeholders : (records.userinfo ++ records.param).all (fun c => c.toNat < 128) = true := by
    decide
  intro c mem
  obtain kept | placeholder := Vocabulary.mem_redact mem
  · exact ascii c kept
  · exact of_decide_eq_true (List.all_eq_true.1 placeholders c (List.mem_append.2 placeholder))

/-! ## The first line of an observed request -/

/-- No credential header has a blank in its name. -/
theorem credentialName_of_blank (method : Bytes) {t : Bytes} (some_ : t ≠ [])
    (plain : ∀ b ∈ t, isOws b = false) : credentialName (method ++ 32 :: t) = none := by
  have whole : (method ++ 32 :: t).rdropWhile isOws = method ++ 32 :: t := by
    rw [List.rdropWhile_eq_self_iff]
    intro _ blank
    have last : (method ++ 32 :: t).getLast (by simp) = t.getLast some_ := by
      rw [List.getLast_append_of_ne_nil _ (List.cons_ne_nil _ _), List.getLast_cons some_]
    rw [last, plain _ (List.getLast_mem some_)] at blank
    contradiction
  have letters : ∀ wanted ∈ credentialHeaders, 32 ∉ usAscii wanted := by decide
  rw [credentialName, List.findIdx?_eq_none_iff, whole]
  intro wanted listed
  refine beq_eq_false_iff_ne.2 ?_
  intro same
  refine letters wanted listed ?_
  rw [← same]
  exact List.mem_map_of_mem (List.mem_append_right _ List.mem_cons_self)

/-- A request line is not a credential field, unless its target begins with a colon. -/
theorem credentialOf_requestLine {method target : Bytes} (token : Message.isToken method = true)
    (plain : ∀ b ∈ target, isOws b = false) (start : target.head? ≠ some 58) :
    credentialOf (requestLine method target) = none := by
  have named : 58 ∉ method := fun mem => absurd (mem_method token mem) (by decide)
  by_cases colon : 58 ∈ target
  · obtain ⟨before, rest, rfl, clean⟩ := List.eq_append_cons_of_mem colon
    have some_ : before ≠ [] := by
      rintro rfl
      exact start rfl
    have parts : requestLine method (before ++ 58 :: rest) =
        (method ++ 32 :: before) ++ 58 :: (rest ++ usAscii " HTTP/1.1") := by
      rw [requestLine, List.append_assoc, List.append_assoc]
      rfl
    have outside : 58 ∉ method ++ 32 :: before := by
      rw [List.mem_append, List.mem_cons]
      rintro (inside | blank | inside)
      · exact named inside
      · exact absurd blank (by decide)
      · exact clean inside
    rw [parts, credentialOf_colon _ outside,
      credentialName_of_blank method some_ fun b mem => plain b (List.mem_append_left _ mem),
      ite_self]
  · apply credentialOf_none
    rw [requestLine, List.mem_append, List.mem_cons, List.mem_append]
    rintro (inside | blank | inside | version)
    · exact named inside
    · exact absurd blank (by decide)
    · exact colon inside
    · exact absurd version (by decide)

theorem redactObservedRequest_line {method target ended : Bytes}
    (token : Message.isToken method = true) (plain : ∀ b ∈ target, isOws b = false)
    (start : target.head? ≠ some 58) (ending : ended ∈ [[], [10], [13, 10]]) :
    redactObservedRequest (requestLine method target ++ ended) =
      requestLine method (redactTarget target) ++ ended := by
  obtain ⟨b, rest, rfl⟩ : ∃ b rest, method = b :: rest := by
    cases method with
    | nil => contradiction
    | cons b rest => exact ⟨b, rest, rfl⟩
  have content : contentOf (requestLine (b :: rest) target ++ ended) =
      requestLine (b :: rest) target := by
    apply contentOf_append
    · have last : requestLine (b :: rest) target =
          ((b :: rest) ++ 32 :: (target ++ usAscii " HTTP/1.")) ++ [49] := by
        simp only [requestLine, List.append_assoc, List.cons_append]
        rfl
      rw [last, List.getLast?_concat]
      decide
    · simp only [List.mem_cons, List.not_mem_nil, or_false] at ending
      obtain rfl | rfl | rfl := ending
      · exact .inl rfl
      · exact .inr (.inr (.inl rfl))
      · exact .inr (.inr (.inr rfl))
  have first : isFold (requestLine (b :: rest) target ++ ended) = false := by
    have clean := mem_method token List.mem_cons_self
    have blank : isBlank b = false := by
      apply Bool.eq_false_iff.2
      intro here
      simp only [isBlank, List.contains_cons, List.contains_nil, Bool.or_false, Bool.or_eq_true,
        beq_iff_eq] at here
      obtain rfl | rfl := here
      · exact clean (by decide)
      · exact clean (by decide)
    exact blank
  have single : linesOf (requestLine (b :: rest) target ++ ended) =
      [requestLine (b :: rest) target ++ ended] := by
    have inside : ∀ e : UInt8, e = 10 ∨ e = 13 → e ∉ requestLine (b :: rest) target := by
      intro e end_ mem
      obtain method | later := List.mem_append.1 mem
      · have clean := mem_method token method
        obtain rfl | rfl := end_
        · exact clean (by decide)
        · exact clean (by decide)
      rw [List.mem_cons, List.mem_append] at later
      obtain blank | inside | version := later
      · subst blank
        exact absurd end_ (by decide)
      · have clean := plain e inside
        obtain rfl | rfl := end_
        · exact absurd clean (by decide)
        · exact absurd clean (by decide)
      · obtain rfl | rfl := end_
        · exact absurd version (by decide)
        · exact absurd version (by decide)
    simp only [List.mem_cons, List.not_mem_nil, or_false] at ending
    obtain rfl | rfl | rfl := ending
    · rw [List.append_nil]
      exact linesOf_single (List.cons_ne_nil _ _) (inside 10 (.inl rfl))
    · exact linesOf_ended (inside 10 (.inl rfl))
    · have crlf : requestLine (b :: rest) target ++ [13, 10] =
          (requestLine (b :: rest) target ++ [13]) ++ [10] := by
        rw [List.append_assoc]
        rfl
      rw [crlf]
      apply linesOf_ended
      rw [List.mem_append, List.mem_singleton]
      rintro (here | cr)
      · exact inside 10 (.inl rfl) here
      · exact absurd cr (by decide)
  have some_ : requestLine (b :: rest) target ≠ [] := List.cons_ne_nil _ _
  rw [redactObservedRequest, single, redactLines, content, if_neg some_, first, if_neg (by decide),
    credentialOf_requestLine token plain start]
  simp only [redactLines, List.append_nil]
  exact redactTarget_line token ending target

theorem isOws_letter {c : Char} (ascii : c.toNat < 128) (plain : Python.isSpace c = false) :
    isOws (letter c) = false := by
  have all : ∀ n < 128, Python.isSpace (Char.ofNat n) = false → isOws (letter (Char.ofNat n)) =
      false := by decide
  have found := all c.toNat ascii
  rw [Char.ofNat_toNat] at found
  exact found plain

example : redactUrl "http://u:p@h/?a=1&Sid=x#s".toList =
    ("http://\x7b\x7bobserved:userinfo\x7d\x7d@h/?a=1&Sid=" ++
      "\x7b\x7bobserved:param\x7d\x7d#s").toList := by
  decide

end Hx.Redact
