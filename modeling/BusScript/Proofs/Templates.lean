import BusScript.Machine.Template
import Mathlib

namespace BusScript.Text

theorem feed_of_lt {b : Nat} (h : b < 0x80) : feed none b = ([Char.ofNat b], none) := by
  rw [feed, start, firstByte, if_pos h]

theorem feed_last {value low high b : Nat} (hlow : low ≤ b) (hhigh : b ≤ high) :
    feed (some ⟨value, 1, low, high⟩) b = ([Char.ofNat (value * 64 + b % 64)], none) :=
  if_pos ⟨hlow, hhigh⟩

theorem feed_more {value left low high b : Nat} (hlow : low ≤ b) (hhigh : b ≤ high) :
    feed (some ⟨value, left + 2, low, high⟩) b = ([], some ⟨value * 64 + b % 64, left + 1, 0x80, 0xbf⟩) :=
  if_pos ⟨hlow, hhigh⟩

theorem feed_first_of_two {b : Nat} (hlow : 0xc2 ≤ b) (hhigh : b < 0xe0) :
    feed none b = ([], some ⟨b % 0x20, 1, 0x80, 0xbf⟩) := by
  rw [feed, start, firstByte, if_neg (by omega), if_neg (by omega), if_pos hhigh]

theorem feed_first_of_three {b : Nat} (hlow : 0xe0 ≤ b) (hhigh : b < 0xf0) : feed none b =
      ([], some ⟨b % 0x10, 2, if b = 0xe0 then 0xa0 else 0x80, if b = 0xed then 0x9f else 0xbf⟩) := by
  rw [feed, start, firstByte, if_neg (by omega), if_neg (by omega), if_neg (by omega), if_pos hhigh]

theorem feed_first_of_four {b : Nat} (hlow : 0xf0 ≤ b) (hhigh : b < 0xf5) : feed none b =
      ([], some ⟨b % 0x08, 3, if b = 0xf0 then 0x90 else 0x80, if b = 0xf4 then 0x8f else 0xbf⟩) := by
  rw [feed, start, firstByte, if_neg (by omega), if_neg (by omega), if_neg (by omega), if_neg (by omega), if_pos hhigh]

theorem decodeFrom_ofNat {state : Option PartialChar} {n : Nat} (h : n < 256) (rest : List UInt8) :
    decodeFrom state (UInt8.ofNat n :: rest) = (feed state n).1 ++ decodeFrom (feed state n).2 rest := by
  rw [decodeFrom, UInt8.toNat_ofNat_of_lt' h]

theorem decodeFrom_two {v : Nat} (hlow : 0x7f < v) (hhigh : v ≤ 0x7ff) (rest : List UInt8) :
    decodeFrom none (UInt8.ofNat (v / 64 % 0x20 + 0xc0) :: UInt8.ofNat (v % 0x40 + 0x80) :: rest) =
      Char.ofNat v :: decodeFrom none rest := by
  have hvalue : (v / 64 % 0x20 + 0xc0) % 0x20 * 64 + (v % 0x40 + 0x80) % 64 = v := by omega
  rw [decodeFrom_ofNat (by omega), feed_first_of_two (by omega) (by omega), List.nil_append,
    decodeFrom_ofNat (by omega), feed_last (Nat.le_add_left ..) (by omega), hvalue]
  rfl

theorem decodeFrom_three {v : Nat} (hlow : 0x7ff < v) (hhigh : v ≤ 0xffff) (hvalid : v < 0xd800 ∨ 0xdfff < v)
    (rest : List UInt8) :
    decodeFrom none (UInt8.ofNat (v / 4096 % 0x10 + 0xe0) :: UInt8.ofNat (v / 64 % 0x40 + 0x80) ::
      UInt8.ofNat (v % 0x40 + 0x80) :: rest) = Char.ofNat v :: decodeFrom none rest := by
  have hvalue : ((v / 4096 % 0x10 + 0xe0) % 0x10 * 64 + (v / 64 % 0x40 + 0x80) % 64) * 64 +
      (v % 0x40 + 0x80) % 64 = v := by
    omega
  rw [decodeFrom_ofNat (by omega), feed_first_of_three (by omega) (by omega), List.nil_append,
    decodeFrom_ofNat (by omega), feed_more (by split <;> omega) (by split <;> omega),
    List.nil_append, decodeFrom_ofNat (by omega), feed_last (Nat.le_add_left ..) (by omega), hvalue]
  rfl

theorem decodeFrom_four {v : Nat} (hlow : 0xffff < v) (hhigh : v < 0x110000) (rest : List UInt8) :
    decodeFrom none (UInt8.ofNat (v / 262144 % 0x08 + 0xf0) :: UInt8.ofNat (v / 4096 % 0x40 + 0x80) ::
      UInt8.ofNat (v / 64 % 0x40 + 0x80) :: UInt8.ofNat (v % 0x40 + 0x80) :: rest) =
      Char.ofNat v :: decodeFrom none rest := by
  have hvalue : (((v / 262144 % 0x08 + 0xf0) % 0x08 * 64 + (v / 4096 % 0x40 + 0x80) % 64) * 64 +
      (v / 64 % 0x40 + 0x80) % 64) * 64 + (v % 0x40 + 0x80) % 64 = v := by
    omega
  rw [decodeFrom_ofNat (by omega), feed_first_of_four (by omega) (by omega), List.nil_append,
    decodeFrom_ofNat (by omega), feed_more (by split <;> omega) (by split <;> omega),
    List.nil_append, decodeFrom_ofNat (by omega), feed_more (Nat.le_add_left ..) (by omega),
    List.nil_append, decodeFrom_ofNat (by omega), feed_last (Nat.le_add_left ..) (by omega), hvalue]
  rfl

theorem decodeFrom_utf8EncodeChar (c : Char) (rest : List UInt8) :
    decodeFrom none (String.utf8EncodeChar c ++ rest) = c :: decodeFrom none rest := by
  have hvalid : c.val.toNat < 0xd800 ∨ 0xdfff < c.val.toNat ∧ c.val.toNat < 0x110000 := c.valid
  have hc : Char.ofNat c.val.toNat = c := Char.ofNat_toNat c
  rw [String.utf8EncodeChar]
  split
  next h =>
    rw [List.singleton_append, decodeFrom_ofNat (by omega), feed_of_lt (by omega), hc]
    rfl
  next h =>
    split
    next h' => exact (decodeFrom_two (by omega) h' rest).trans (by rw [hc])
    next h' =>
      split
      next h'' => exact (decodeFrom_three (by omega) h'' (by omega) rest).trans (by rw [hc])
      next h'' => exact (decodeFrom_four (by omega) (by omega) rest).trans (by rw [hc])

theorem decodeFrom_flatMap (l : List Char) : decodeFrom none (l.flatMap String.utf8EncodeChar) = l := by
  induction l with
  | nil => rfl
  | cons c l ih => rw [List.flatMap_cons, decodeFrom_utf8EncodeChar, ih]

theorem decodeUtf8_encodeUtf8 (s : String) : decodeUtf8 (encodeUtf8 s) = s := by
  have hbytes : (encodeUtf8 s).toList = s.toList.flatMap String.utf8EncodeChar := by
    rw [encodeUtf8, String.toUTF8_eq_toByteArray]
    conv_lhs => rw [← String.ofList_toList (s := s)]
    rw [String.toByteArray_ofList]
    exact List.toList_data_toByteArray
  rw [decodeUtf8, hbytes, decodeFrom_flatMap, String.ofList_toList]

/-- Whatever bytes complete the character, it takes more than one byte. -/
structure PartialChar.IsLong (p : PartialChar) : Prop where
  low : 0x80 ≤ p.low
  high : p.high ≤ 0xbf
  value : 0x80 ≤ (p.value * 64 + p.low % 64) * 64 ^ (p.left - 1)

theorem isLong_of_firstByte {b : Nat} {p : PartialChar} (h : firstByte b = .part p) : p.IsLong := by
  unfold firstByte at h
  split at h
  · cases h
  split at h
  · cases h
  split at h
  · cases h
    exact ⟨Nat.le_refl _, Nat.le_refl _, by dsimp only; omega⟩
  split at h
  · cases h
    exact ⟨by dsimp only; split <;> omega, by dsimp only; split <;> omega, by dsimp only; split <;> omega⟩
  split at h
  · cases h
    exact ⟨by dsimp only; split <;> omega, by dsimp only; split <;> omega, by dsimp only; split <;> omega⟩
  · cases h

theorem ofNat_ne_of_le {v : Nat} (h : 0x80 ≤ v) : Char.ofNat v ≠ '\x7b' := by
  intro heq
  have hval := congrArg Char.toNat heq
  rw [Char.toNat_ofNat] at hval
  grind

theorem start_spec (b : Nat) : ('\x7b' ∈ (start b).1 → b = 0x7b) ∧ ∀ p ∈ (start b).2, p.IsLong := by
  rw [start]
  split
  next c h =>
    refine ⟨fun hmem => ?_, fun p hp => absurd hp (Option.not_mem_none p)⟩
    unfold firstByte at h
    split at h
    next hlt =>
      cases h
      have hnat : (Char.ofNat b).toNat = b := by
        rw [Char.toNat_ofNat, if_pos (.inl (Nat.lt_trans hlt (by decide)))]
      rw [← hnat, ← List.mem_singleton.1 hmem]
      decide
    next => repeat' first | cases h | split at h
  next p h =>
    refine ⟨fun hmem => absurd hmem List.not_mem_nil, fun q hq => ?_⟩
    cases hq
    exact isLong_of_firstByte h
  next => exact ⟨fun hmem => absurd hmem (by decide), fun p hp => absurd hp (Option.not_mem_none p)⟩

theorem feed_spec {state : Option PartialChar} (hstate : ∀ p ∈ state, p.IsLong) (b : Nat) :
    ('\x7b' ∈ (feed state b).1 → b = 0x7b) ∧ ∀ p ∈ (feed state b).2, p.IsLong := by
  rcases state with _ | p
  · exact start_spec b
  have hlong := hstate p rfl
  rw [feed]
  split
  next hrange =>
    have hvalue : p.value * 64 + p.low % 64 ≤ p.value * 64 + b % 64 := by
      have := hlong.low
      have := hlong.high
      omega
    have hlarge := hlong.value.trans (Nat.mul_le_mul_right _ hvalue)
    dsimp only
    split
    next hleft =>
      rw [hleft, Nat.sub_self, Nat.pow_zero, Nat.mul_one] at hlarge
      exact ⟨fun hmem => absurd (List.mem_singleton.1 hmem).symm (ofNat_ne_of_le hlarge),
        fun q hq => absurd hq (Option.not_mem_none q)⟩
    next hleft =>
      refine ⟨fun hmem => absurd hmem List.not_mem_nil, fun q hq => ?_⟩
      cases hq
      refine ⟨Nat.le_refl _, Nat.le_refl _, hlarge.trans ?_⟩
      dsimp only
      rw [Nat.add_zero, Nat.mul_assoc]
      refine Nat.mul_le_mul_left _ ?_
      rw [← Nat.pow_succ']
      exact Nat.pow_le_pow_right (by decide) (by omega)
  next =>
    refine ⟨fun hmem => ?_, (start_spec b).2⟩
    exact (start_spec b).1 ((List.mem_cons.1 hmem).resolve_left (by decide))

theorem mem_of_mem_decodeFrom {state : Option PartialChar} {bytes : List UInt8} (hstate : ∀ p ∈ state, p.IsLong)
    (h : '\x7b' ∈ decodeFrom state bytes) : 0x7b ∈ bytes := by
  induction bytes generalizing state with
  | nil =>
    rw [decodeFrom] at h
    split at h
    · exact absurd h (by decide)
    · exact absurd h List.not_mem_nil
  | cons b bytes ih =>
    obtain ⟨hbrace, hnext⟩ := feed_spec hstate b.toNat
    rw [decodeFrom] at h
    rcases List.mem_append.1 h with h | h
    · have hb : b = 0x7b := UInt8.toNat_inj.1 (hbrace h)
      exact hb ▸ List.mem_cons_self
    · exact List.mem_cons_of_mem _ (ih hnext h)

theorem mem_of_mem_decodeUtf8 {bytes : Array UInt8} (h : '\x7b' ∈ (decodeUtf8 bytes).toList) : 0x7b ∈ bytes := by
  rw [decodeUtf8, String.toList_ofList] at h
  exact Array.mem_toList_iff.1 (mem_of_mem_decodeFrom (fun p hp => absurd hp (Option.not_mem_none p)) h)

end BusScript.Text

namespace BusScript.Template

/-- `text` goes on with the number of the argument `x` and a closing brace, and then with `rest`. -/
def Names (args : List Number) (text : List Char) (x : Number) (rest : List Char) : Prop :=
  ∃ digits : List Char, digits ≠ [] ∧ (∀ c ∈ digits, c.isDigit = true) ∧ text = digits ++ '\x7d' :: rest ∧
    args[digitsValue digits]? = some x

/-- What a template stands for, read from the left. -/
inductive Means (args : List Number) : List Char → List Char → Prop
  | done : Means args [] []
  | plain {c : Char} {rest out : List Char} (hc : c ≠ '\x7b') (h : Means args rest out) :
    Means args (c :: rest) (c :: out)
  | doubled {rest out : List Char} (h : Means args rest out) : Means args ('\x7b' :: '\x7b' :: rest) ('\x7b' :: out)
  | argument {text rest out : List Char} {x : Number} (hx : Names args text x rest) (h : Means args rest out) :
    Means args ('\x7b' :: text) ((numberText x).toList ++ out)
  | stray {rest out : List Char} (hdoubled : rest.head? ≠ some '\x7b') (hnames : ∀ x after, ¬Names args rest x after)
    (h : Means args rest out) : Means args ('\x7b' :: rest) ('\x7b' :: out)

variable {args : List Number} {text rest out : List Char} {x : Number}

theorem placeholder?_eq_some_iff : placeholder? args text = some (x, rest) ↔ Names args text x rest := by
  constructor
  · intro h
    have hsplit := List.takeWhile_append_dropWhile (p := Char.isDigit) (l := text)
    simp only [placeholder?] at h
    split at h
    next tail hdrop =>
      rw [Option.ite_none_left_eq_some] at h
      obtain ⟨hne, hx⟩ := h
      obtain ⟨y, hy, heq⟩ := Option.map_eq_some_iff.1 hx
      cases heq
      refine ⟨text.takeWhile Char.isDigit, fun hnil => hne (by rw [hnil]; rfl),
        fun c hc => List.mem_takeWhile_imp hc, ?_, hy⟩
      rw [← hdrop, hsplit]
    next => cases h
  · rintro ⟨digits, hne, hdigits, rfl, hx⟩
    have htake : (digits ++ '\x7d' :: rest).takeWhile Char.isDigit = digits := by
      rw [List.takeWhile_append_of_pos hdigits, List.takeWhile_cons_of_neg (by decide), List.append_nil]
    have hdrop : (digits ++ '\x7d' :: rest).dropWhile Char.isDigit = '\x7d' :: rest := by
      rw [List.dropWhile_append_of_pos hdigits, List.dropWhile_cons_of_neg (by decide)]
    simp only [placeholder?, htake, hdrop, hx, Option.map_some, List.isEmpty_iff, if_neg hne]

theorem Names.head?_ne (h : Names args text x rest) : text.head? ≠ some '\x7b' := by
  obtain ⟨_ | ⟨c, digits⟩, hne, hdigits, rfl, -⟩ := h
  · exact absurd rfl hne
  · intro hhead
    simp_all

theorem means_expand (args : List Number) (text : List Char) : Means args text (expand args text) := by
  fun_induction expand args text with
  | case1 => exact .done
  | case2 rest ih => exact .doubled ih
  | case3 rest hdoubled x after hx ih => exact .argument (placeholder?_eq_some_iff.1 hx) ih
  | case4 rest hdoubled hx ih =>
    -- Neither of the two tests in front has succeeded.
    refine .stray (fun hhead => ?_) (fun x after hnames => ?_) ih
    · obtain ⟨tail, htail⟩ := List.head?_eq_some_iff.1 hhead
      exact hdoubled tail htail
    · rw [placeholder?_eq_some_iff.2 hnames] at hx
      cases hx
  | case5 c rest hdoubled hc ih => exact .plain hc ih

theorem Means.unique {out' : List Char} (h : Means args text out) (h' : Means args text out') : out = out' := by
  -- The rules exclude each other, and where a placeholder ends is settled by its digits.
  induction h generalizing out' with
  | done => cases h'; rfl
  | plain hc _ ih =>
    cases h' with
    | plain _ h' => rw [ih h']
    | doubled | argument | stray => exact absurd rfl hc
  | doubled _ ih =>
    cases h' with
    | plain hc => exact absurd rfl hc
    | doubled h' => rw [ih h']
    | argument hx => exact absurd rfl hx.head?_ne
    | stray hdoubled => exact absurd rfl hdoubled
  | argument hx _ ih =>
    cases h' with
    | plain hc => exact absurd rfl hc
    | doubled => exact absurd rfl hx.head?_ne
    | argument hx' h' =>
      have heq := (placeholder?_eq_some_iff.2 hx).symm.trans (placeholder?_eq_some_iff.2 hx')
      cases heq
      rw [ih h']
    | stray _ hnames => exact absurd hx (hnames _ _)
  | stray hdoubled hnames _ ih =>
    cases h' with
    | plain hc => exact absurd rfl hc
    | doubled => exact absurd rfl hdoubled
    | argument hx => exact absurd hx (hnames _ _)
    | stray _ _ h' => rw [ih h']

theorem means_iff : Means args text out ↔ expand args text = out :=
  ⟨fun h => (means_expand args text).unique h, fun h => h ▸ means_expand args text⟩

theorem Means.refl (h : '\x7b' ∉ text) : Means args text text := by
  induction text with
  | nil => exact .done
  | cons c text ih =>
    obtain ⟨hc, htext⟩ := not_or.1 (mt List.mem_cons.2 h)
    exact .plain (Ne.symm hc) (ih htext)

/-- Text in which every opening brace is doubled. -/
def escape (text : String) : String :=
  String.ofList (text.toList.flatMap fun c => if c = '\x7b' then [c, c] else [c])

/-- Numbers of arguments, each with the text behind it. -/
abbrev Parts (args : List Number) := List (Fin args.length × String)

def written : Parts args → String
  | [] => ""
  | (i, piece) :: parts => "\x7b" ++ toString i.val ++ "\x7d" ++ escape piece ++ written parts

def filled : Parts args → String
  | [] => ""
  | (i, piece) :: parts => numberText (args.get i) ++ piece ++ filled parts

theorem Means.escape (piece : String) (h : Means args text out) :
    Means args ((escape piece).toList ++ text) (piece.toList ++ out) := by
  rw [Template.escape, String.toList_ofList]
  induction piece.toList with
  | nil => exact h
  | cons c piece ih =>
    rw [List.flatMap_cons]
    split
    next hc =>
      subst hc
      exact .doubled ih
    next hc => exact .plain hc ih

theorem names_toString (i : Fin args.length) (text : List Char) :
    Names args ((toString i.val).toList ++ '\x7d' :: text) (args.get i) text := by
  have hdigits : (toString i.val).toList = Nat.toDigits 10 i.val := by
    rw [Nat.toString_eq_ofList_toDigits, String.toList_ofList]
  have hvalue : digitsValue (Nat.toDigits 10 i.val) = i.val := Nat.ofDigitChars_ten_toDigits
  refine ⟨(toString i.val).toList, ?_, ?_, rfl, ?_⟩
  · rw [hdigits]
    exact Nat.toDigits_ne_nil
  · rw [hdigits]
    exact fun c hc => Nat.isDigit_of_mem_toDigits (by decide) (by decide) hc
  · simp_all

theorem means_written (parts : Parts args) : Means args (written parts).toList (filled parts).toList := by
  induction parts with
  | nil => exact .done
  | cons part parts ih =>
    obtain ⟨i, piece⟩ := part
    have hpart := Means.argument (names_toString i _) (ih.escape piece)
    have hopen : "\x7b".toList = ['\x7b'] := by decide
    have hclose : "\x7d".toList = ['\x7d'] := by decide
    simpa only [written, filled, String.toList_append, List.append_assoc, hopen, hclose,
      List.cons_append, List.nil_append] using hpart

theorem render_eq_iff {template : Array UInt8} {out : String} :
    render template args = out ↔ Means args (Text.decodeUtf8 template).toList out.toList := by
  rw [means_iff, render, ← String.toList_inj, String.toList_ofList]

/-- Texts with their braces doubled come out as they were, and placeholders between them as the arguments. In every
template, an opening brace that is not doubled and starts no placeholder of an argument stands for itself, and reading
goes on right behind it. So a template without opening braces comes out as the text that it is read as, which is the
template itself if it is well-formed UTF-8. -/
theorem templates_are_filled_in (args : List Number) : (∀ (first : String) (parts : Parts args),
      render (Text.encodeUtf8 (escape first ++ written parts)) args = first ++ filled parts) ∧
    (∀ (template : Array UInt8) (out : String),
      render template args = out ↔ Means args (Text.decodeUtf8 template).toList out.toList) ∧
    (∀ template : Array UInt8, 0x7b ∉ template → render template args = Text.decodeUtf8 template) ∧
    ∀ text : String, 0x7b ∉ Text.encodeUtf8 text →
      Text.encodeUtf8 (render (Text.encodeUtf8 text) args) = Text.encodeUtf8 text := by
  have hplain : ∀ template : Array UInt8, 0x7b ∉ template → render template args = Text.decodeUtf8 template :=
    fun template h => render_eq_iff.2 (Means.refl (mt Text.mem_of_mem_decodeUtf8 h))
  refine ⟨fun first parts => render_eq_iff.2 ?_, fun _ _ => render_eq_iff, hplain, fun text h => ?_⟩
  · rw [Text.decodeUtf8_encodeUtf8, String.toList_append, String.toList_append]
    exact (means_written parts).escape first
  · rw [hplain _ h, Text.decodeUtf8_encodeUtf8]

/-- A doubled brace right before a placeholder and a closing brace right behind it, a template with a byte that is part
of no text, and one with a closing brace only. -/
theorem templates_are_filled_in_between_braces :
    let args : List Number := [1, 0]
    render (Text.encodeUtf8 "\x7b\x7b\x7b1\x7d\x7d") args = "\x7b0\x7d" ∧
      (0x7b : UInt8) ∉ #[0x61, 0xff] ∧ render #[0x61, 0xff] args = "a\ufffd" ∧
      0x7b ∉ Text.encodeUtf8 "a\x7d" ∧
      Text.encodeUtf8 (render (Text.encodeUtf8 "a\x7d") args) = Text.encodeUtf8 "a\x7d" := by
  intro args
  obtain ⟨hfilled, -, hplain, htext⟩ := templates_are_filled_in args
  have hbytes : (0x7b : UInt8) ∉ #[0x61, 0xff] := by decide +kernel
  have hclosed : 0x7b ∉ Text.encodeUtf8 "a\x7d" := by decide +kernel
  have hparts := hfilled "\x7b" [(⟨1, Nat.le.refl⟩, "\x7d")]
  rw [show escape "\x7b" ++ written ([(⟨1, Nat.le.refl⟩, "\x7d")] : Parts args) = "\x7b\x7b\x7b1\x7d\x7d" by
      decide +kernel,
    show "\x7b" ++ filled ([(⟨1, Nat.le.refl⟩, "\x7d")] : Parts args) = "\x7b0\x7d" by decide +kernel] at hparts
  exact ⟨hparts, hbytes, (hplain _ hbytes).trans (by decide +kernel), hclosed, htext _ hclosed⟩

/-- A byte that is part of no text is replaced. -/
theorem malformed_template_changes : (0x7b : UInt8) ∉ #[0xff] ∧ Text.encodeUtf8 (render #[0xff] []) ≠ #[0xff] := by
  decide +kernel

end BusScript.Template
