import BusScript.Proofs.CodeEffects
import BusScript.Proofs.Layouts
import BusScript.Proofs.LoweringRuns
import BusScript.Proofs.Numbers
import BusScript.Proofs.Trails

namespace BusScript

open CodeWriter Draft

/-- A constant as the machine has it. -/
def Number.asLoaded (x : Number) : Number := if x.isNaN then nan else if x = -0 then 0 else x

theorem Number.asLoaded_eq {x : Number} (hnan : x.isNaN = false) (hneg : x ≠ -0) : x.asLoaded = x := by
  rw [asLoaded, if_neg (Bool.eq_false_iff.1 hnan), if_neg hneg]

theorem Number.ofNat_eq_asLoaded {x : Number} (hnan : x.isNaN = false) (hwhole : x.isWhole = true) (hge : 0 ≤ x)
    (hle : x ≤ 65535) : ofNat x.toUInt32.toNat = x.asLoaded := by
  by_cases hneg : x = -0
  · rw [hneg]
    decide +kernel
  · rw [asLoaded_eq hnan hneg, ofNat_toUInt32 hwhole hge hle hneg]

/-- Whether two constants can share a place in the pool. -/
def Number.Shares (x y : Number) : Prop := x = y ∨ x.isZero = true ∧ x.equals y = true ∨ x.isNaN = true ∧ y.isNaN = true

theorem Number.shares_of_samePoolFloat {x y : Number} (h : samePoolFloat x y = true) : x.Shares y := by
  rw [samePoolFloat, Bool.or_eq_true, Bool.and_eq_true] at h
  rcases h with h | h
  · exact (eq_of_equals h).imp_right fun hzero => .inl ⟨hzero, h⟩
  · exact .inr (.inr h)

theorem Number.Shares.eq {x y : Number} (h : x.Shares y) (hzero : x.isZero = false) (hnan : x.isNaN = false) : y = x := by
  rcases h with rfl | ⟨h, -⟩ | ⟨h, -⟩
  · rfl
  · exact absurd h (Bool.eq_false_iff.1 hzero)
  · exact absurd h (Bool.eq_false_iff.1 hnan)

/-- No constant of a pool could have shared the place of an earlier one. -/
def PoolApart (floats : Array Number) : Prop := floats.toList.Pairwise fun x y => samePoolFloat y x = false

/-- Constants keep their places as a pool grows. -/
def PoolKept (floats floats' : Array Number) : Prop :=
  ∀ (i : Nat) (y : Number), floats[i]? = some y → floats'[i]? = some y

/-- A pool in which a constant has found its place. -/
structure Pooled (x : Number) (floats floats' : Array Number) (index : Nat) : Prop where
  kept : PoolKept floats floats'
  place : ∃ y, floats'[index]? = some y ∧ x.Shares y
  index_le : index ≤ floats.size
  apart : PoolApart floats → PoolApart floats'

theorem Lowering.floatLiteral_eq (x : Number) (d : Draft) :
    ∃ index floats, floatLiteral x d = .ok index { d with floats } ∧ Pooled x d.floats floats index := by
  rw [floatLiteral, get_bind_apply]
  cases hfound : d.floats.findIdx? (samePoolFloat x) with
  | some index =>
    obtain ⟨hlt, hsame, -⟩ := Array.findIdx?_eq_some_iff_getElem.1 hfound
    have hplace := Array.getElem?_eq_getElem hlt
    exact ⟨index, d.floats, rfl, fun _ _ => id, ⟨_, hplace, Number.shares_of_samePoolFloat hsame⟩, Nat.le_of_lt hlt, id⟩
  | none =>
    have hnew := Array.findIdx?_eq_none_iff.1 hfound
    refine ⟨d.floats.size, d.floats.push x, rfl, fun _ _ => getElem?_push_of_some x,
      ⟨x, Array.getElem?_push_size, .inl rfl⟩, Nat.le_refl _, fun h => ?_⟩
    rw [PoolApart, Array.toList_push, List.pairwise_append]
    refine ⟨h, List.pairwise_singleton .., fun y hy z hz => ?_⟩
    rw [List.mem_singleton.1 hz]
    exact hnew y (Array.mem_toList_iff.1 hy)

/-- Each of a row of constants still has its place when the last one has found its own. -/
theorem Lowering.floatLiterals_eq (xs : List Number) (d : Draft) :
    ∃ indices floats, xs.mapM floatLiteral d = .ok indices { d with floats } ∧ PoolKept d.floats floats ∧
      (PoolApart d.floats → PoolApart floats) ∧
      List.Forall₂ (fun x index => ∃ y, floats[index]? = some y ∧ x.Shares y) xs indices := by
  induction xs generalizing d with
  | nil => exact ⟨[], d.floats, rfl, fun _ _ => id, id, .nil⟩
  | cons x xs ih =>
    obtain ⟨index, floats, hfirst, hpooled⟩ := floatLiteral_eq x d
    obtain ⟨indices, floats', hrest, hkept, hapart, hplaces⟩ := ih { d with floats }
    refine ⟨index :: indices, floats', ?_, fun i y hy => hkept i y (hpooled.kept i y hy),
      fun h => hapart (hpooled.apart h), .cons ?_ hplaces⟩
    · rw [List.mapM_cons]
      simp only [bind, EStateM.bind, hfirst, hrest]
      rfl
    · obtain ⟨y, hy, hshares⟩ := hpooled.place
      exact ⟨y, hkept index y hy, hshares⟩

/-- Loading a constant comes down to one instruction. -/
theorem Lowering.loadFloat_eq (dst : Nat) (x : Number) (d : Draft) :
    ∃ kind index floats, loadFloat dst x d = write (emit (.load dst kind index 0)) { d with floats } ∧
      PoolKept d.floats floats ∧ index ≤ max 65535 d.floats.size ∧
      ∀ pool s, PoolKept floats pool → Instr.loaded pool s kind index = some x.asLoaded := by
  cases hnan : x.isNaN with
  | true =>
    refine ⟨.special, SpecialValue.nan.code, d.floats, ?_, fun _ _ => id, ?_, fun pool s _ => ?_⟩
    · rw [loadFloat, if_pos hnan]
      rfl
    · exact Nat.le_trans (by decide) (Nat.le_max_left ..)
    · rw [Number.asLoaded, if_pos hnan]
      rfl
  | false =>
    rw [loadFloat, if_neg (Bool.eq_false_iff.1 hnan)]
    by_cases hwhole : (x.isWhole && 0 ≤ x && x ≤ 65535) = true
    · rw [if_pos hwhole]
      simp only [Bool.and_eq_true, decide_eq_true_iff] at hwhole
      have hle := Nat.le_trans (Number.toUInt32_le_65535 hwhole.2) (Nat.le_max_left 65535 d.floats.size)
      refine ⟨.identity, x.toUInt32.toNat, d.floats, rfl, fun _ _ => id, hle, fun pool s _ => ?_⟩
      rw [Instr.loaded, Number.ofNat_eq_asLoaded hnan hwhole.1.1 hwhole.1.2 hwhole.2]
    · have hzero : x.isZero = false := by
        refine Bool.eq_false_iff.2 fun hz => ?_
        rcases Number.eq_zero_of_isZero hz with rfl | rfl
        · exact hwhole (by decide +kernel)
        · exact hwhole (by decide +kernel)
      obtain ⟨index, floats, hlit, hpooled⟩ := floatLiteral_eq x d
      refine ⟨.floatConst, index, floats, ?_, hpooled.kept, Nat.le_trans hpooled.index_le (Nat.le_max_right ..),
        fun pool s hpool => ?_⟩
      · rw [if_neg hwhole]
        simp only [bind, EStateM.bind, hlit]
        rfl
      · obtain ⟨y, hy, hshares⟩ := hpooled.place
        have hneg : x ≠ -0 := by
          rintro rfl
          exact absurd hzero (by decide)
        rw [Instr.loaded, hpool index y hy, hshares.eq hzero hnan, Number.asLoaded_eq hnan hneg]

/-- The words at a place in the body of a function stand at that place behind its start in the loaded image. -/
theorem ImageTables.carries_of_body {t : ImageTables} {i : Nat} {g : FunctionTable} {front words rest : List Word}
    (hg : t.functions[i]? = some g) (hbody : g.body.toList = front ++ (words ++ rest)) :
    ∃ info, t.loaded.functions[i]? = some info ∧ t.loaded.Carries (info.startPc + front.length) words := by
  obtain ⟨start, hinfo, heq⟩ := loaded_function hg
  have hall : t.loaded.Carries (info start g).startPc (front ++ (words ++ rest)) := by
    refine fun k w hk => Image.words_of_body ?_
    rw [heq, ← Array.getElem?_toList, hbody, hk]
  exact ⟨_, hinfo, hall.right.left⟩

theorem Draft.writer_setWriter {d : Draft} (h : d.current < d.procedures.size) (w : CodeWriter) :
    (d.setWriter w).writer = w := by
  simp [writer, procedure, setWriter, modifyProcedure, h, Array.getElem_modify]

namespace Lowering

/-- A machine that runs the words of a constant in the loaded image gets the constant. In a row of constants each one
keeps its place in the pool, where no two could have shared a place. -/
theorem constants_are_loaded {d : Draft} (hcurrent : d.current < d.procedures.size)
    (hroom : d.floats.size ≤ maxOperand) {dst : Nat} (hdst : dst < 16) (x : Number) (xs : List Number) :
    (∃ d' words, loadFloat dst x d = .ok () d' ∧ d'.writer.code.toList = d.writer.code.toList ++ words ∧
      ∀ t : ImageTables, t.Aligned → t.image.size < 2 ^ 32 → PoolKept d'.floats t.floats.toArray →
        ∃ image, Image.load t.image = .ok image ∧ ∀ (i : Nat) (g : FunctionTable) front rest, t.functions[i]? = some g →
          g.body.toList = front ++ (words ++ rest) → ∃ info, image.functions[i]? = some info ∧
            ∀ (m : Machine) f s, m.image = image → m.RunsTo f (info.startPc + front.length) s
              (info.startPc + front.length + words.length) (s.put dst x.asLoaded)) ∧
      ∃ indices d', xs.mapM floatLiteral d = .ok indices d' ∧ (PoolApart d.floats → PoolApart d'.floats) ∧
        List.Forall₂ (fun x index => ∃ y, d'.floats[index]? = some y ∧ x.Shares y) xs indices := by
  refine ⟨?_, ?_⟩
  · obtain ⟨kind, index, floats, heq, -, hindex, hloaded⟩ := loadFloat_eq dst x d
    have hle : index / 64 ≤ maxOperand := by
      have hmax : index ≤ maxOperand := Nat.le_trans hindex (Nat.max_le.2 ⟨by decide, hroom⟩)
      exact Nat.le_trans (Nat.div_le_self ..) hmax
    have henc : (Instr.load dst kind index 0).Encodable := Instr.encodable_load kind hdst hle (Nat.zero_le _)
    have hwrite : loadFloat dst x d = .ok () (Draft.setWriter { d with floats }
        { d.writer with code := d.writer.code ++ (Instr.load dst kind index 0).words }) := by
      rw [heq, write, show Draft.writer { d with floats } = d.writer from rfl, emit_of_encodable henc]
    refine ⟨_, (Instr.load dst kind index 0).words, hwrite, ?_, fun t haligned hsize hpool => ?_⟩
    · rw [@writer_setWriter { d with floats } hcurrent, Array.toList_appendList]
    · refine ⟨t.loaded, t.load_image haligned hsize, fun i g front rest hg hbody => ?_⟩
      obtain ⟨info, hinfo, hcarries⟩ := t.carries_of_body hg hbody
      refine ⟨info, hinfo, fun m f s hm => ?_⟩
      have hload : Instr.loaded m.image.floats s kind index = some x.asLoaded :=
        hloaded _ _ fun j y hy => by rw [hm]; exact hpool j y hy
      refine .instr henc (hm ▸ hcarries) ?_
      rw [Instr.effect, hload, Option.map_some]
  · obtain ⟨indices, floats, heq, -, hapart, hplaces⟩ := floatLiterals_eq xs d
    exact ⟨indices, _, heq, hapart, hplaces⟩

theorem constants_are_loaded_half : ∃ d₁ indices d₂, loadFloat 3 0.5 (Draft.new Catalog.builtin {}) = .ok () d₁ ∧
      [0.5, 0, -0].mapM floatLiteral (Draft.new Catalog.builtin {}) = .ok indices d₂ ∧ PoolApart d₂.floats := by
  obtain ⟨⟨d₁, -, hload, -⟩, indices, d₂, hlits, hapart, -⟩ := @constants_are_loaded (Draft.new Catalog.builtin {})
    (by decide) (by decide) 3 (by decide) 0.5 [0.5, 0, -0]
  exact ⟨d₁, indices, d₂, hload, hlits, hapart .nil⟩

end Lowering

open Script in
/-- `var x = -0` -/
def negativeZeroScript : List Stmt := [declare "x" (some (.unary {} .neg (.literal {} (.number 0))))]

theorem negative_zero_loses_sign :
    ∃ compiled m, compile Catalog.builtin {} negativeZeroScript = .ok compiled ∧ compiled.numErrors = 0 ∧
      Machine.new compiled.image {} {} (.ofSeed 1) = .ok m ∧ (m.start 64).map (·.2.globals) = some #[0] ∧
      (0 : Number) ≠ -0 := by
  have hruns : loadsCleanly negativeZeroScript {} fun m => (m.start 64).map (·.2.globals) = some #[0] := by
    decide +kernel
  obtain ⟨compiled, m, hcompile, hclean, hnew, hstart⟩ := exists_of_loadsCleanly hruns
  exact ⟨compiled, m, hcompile, hclean, hnew, of_decide_eq_true hstart, by decide⟩

end BusScript
