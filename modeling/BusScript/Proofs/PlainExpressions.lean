import BusScript.Proofs.Computations

namespace BusScript

open Lowering (applyPrimitive binary callMath foldSign literal number numbers operatorOp? requireArgs signOp unary write)

open CodeWriter

/-- Lowering the part gives a value that is `f`, wherever the variables in `scope` are there. -/
def Part.Means (p : Part) (scope : List String) (f : Env → Number) : Prop :=
  ∀ x : Sketch, x.Usable scope → x.Leads (fun v x' => x.Held x' [v] [f]) p.value

namespace Sketch

variable {x x' x'' : Sketch} {scope : List String}

theorem number_leads {p : Part} {f : Env → Number} (hp : p.Means scope f) (h : Usable x scope) :
    Leads x (fun v x' => Held x x' [v] [f]) (number p) := by
  refine .bind (hp x h) fun v x1 hv => ?_
  dsimp only
  split
  · trivial
  · exact .pure hv

variable {fs : List (Env → Number)} {g : Env → Number}

theorem numbers_leads {ps : List Part}
    (hps : List.Forall₂ (fun p f => p.Means scope f) ps fs) (h : Usable x scope) :
    Leads x (fun vs x' => Held x x' vs fs) (numbers ps) := by
  induction hps generalizing x with
  | nil => exact .pure (.still h.registers rfl nofun fun _ _ _ => .nil)
  | @cons p f ps fs hp _ ih =>
    refine .bind (number_leads hp h) fun v x1 hv => ?_
    refine .bind (ih (hv.usable h)) fun vs x2 hvs => ?_
    exact .pure (hv.append hvs h.isOpen)

theorem loadValues_leads {pairs : List (Nat × Value)} (fs : List (Env → Number)) (keep : List Nat)
    (h : x.writer.Registers) (hlen : pairs.length = fs.length) (hlow : ∀ p ∈ pairs, p.1 < 16)
    (hnodup : (pairs.map (·.1)).Nodup) (hapart : ∀ p ∈ pairs, ∀ q ∈ pairs, p.1 ∉ q.2.regs)
    (hkeep : ∀ p ∈ pairs, p.1 ∉ keep) :
    Leads x (fun _ x' => x'.writer.scopes = x.writer.scopes ∧
        Effect x x' keep (Value.DenoteAll (pairs.map (·.2)) fs)
          fun env s => List.Forall₂ (fun r f => (s.get r).Alike (f env)) (pairs.map (·.1)) fs)
      (Lowering.loadValues pairs) := by
  induction pairs generalizing x fs keep with
  | nil =>
    cases fs with
    | nil => exact .pure ⟨rfl, ((Computes.refl h).effect keep _).mono (fun _ => id) (fun _ _ _ => .nil) fun _ _ => id⟩
    | cons f fs => cases hlen
  | cons p rest ih =>
    cases fs with
    | nil => cases hlen
    | cons f fs =>
      obtain ⟨r, v⟩ := p
      obtain ⟨hr, hnodup⟩ := List.nodup_cons.1 hnodup
      have hhead : (r, v) ∈ (r, v) :: rest := List.mem_cons_self
      have htail : ∀ q ∈ rest, q ∈ (r, v) :: rest := fun q hq => List.mem_cons_of_mem _ hq
      have hothers : r ∉ keep ++ (rest.map (·.2)).flatMap (·.regs) := by grind
      refine .bind (loadValue_leads h (hlow _ hhead) hothers v f) ?_
      rintro _ x1 ⟨hscopes, heff⟩
      have hrest : ∀ p ∈ rest, p.1 ∉ r :: keep := by grind
      refine (ih fs (r :: keep) heff.registers (Nat.succ.inj hlen) (fun p hp => hlow p (htail p hp)) hnodup
        (fun p hp q hq => hapart p (htail p hp) q (htail q hq)) hrest).mono ?_
      rintro _ x2 ⟨hscopes', heff'⟩
      have hstay : Stable (keep ++ (rest.map (·.2)).flatMap (·.regs)) (Value.DenoteAll (rest.map (·.2)) fs) :=
        stable_forall (fun w hw q hq => List.mem_append_right _ (List.mem_flatMap.2 ⟨w, hw, hq⟩)) fs
      have hloaded : Stable (r :: keep) fun env s => (s.get r).Alike (f env) := by
        intro env s s' _ hregs hs
        rwa [hregs r List.mem_cons_self (hlow _ hhead)]
      refine ⟨hscopes'.trans hscopes, ((heff.frame hstay).mono (List.subset_append_left ..) ?_
        fun _ _ => And.symm).trans
        ((heff'.frame hloaded).mono (List.subset_cons_self ..) (fun _ _ => id) ?_)⟩
      · exact fun env s hs => (List.forall₂_cons.1 hs).symm
      · exact fun env s hs => List.forall₂_cons.2 hs

theorem passValues_leads {vs : List Value} (h : Usable x scope) (hcount : vs.length ≤ 16)
    (hlen : vs.length = fs.length) (hlive : ∀ v ∈ vs, ∀ r ∈ v.regs, r ∈ x.live) :
    Leads x (fun _ x' => x'.writer.scopes = grow (List.range vs.length) x.writer.scopes ∧
        Effect x x' x.live (Value.DenoteAll vs fs)
          fun env s => ∀ (i : Nat) (f : Env → Number), fs[i]? = some f → (s.get i).Alike (f env))
      (Lowering.passValues vs) := by
  refine .bind (allocArgs_leads h.registers h.isOpen (by omega)) ?_
  rintro _ x1 ⟨rfl, hcode, hscopes⟩
  have hmem : ∀ p ∈ (List.range vs.length).zip vs, p.1 ∈ List.range vs.length ∧ p.2 ∈ vs := fun p hp =>
    ⟨(List.of_mem_zip hp).1, (List.of_mem_zip hp).2⟩
  have hfree : ∀ p ∈ (List.range vs.length).zip vs, p.1 ∉ x.live := fun p hp =>
    notMem_live_of_new hcode.registers h.isOpen hscopes (hmem p hp).1
  have hfst : ((List.range vs.length).zip vs).map (·.1) = List.range vs.length :=
    List.map_fst_zip (by rw [List.length_range])
  have hsnd : ((List.range vs.length).zip vs).map (·.2) = vs := List.map_snd_zip (by rw [List.length_range])
  refine (loadValues_leads fs x.live hcode.registers ?_ (fun p hp => ?_) ?_ (fun p hp q hq hr => ?_) hfree).mono ?_
  · rw [List.length_zip, List.length_range, Nat.min_self, hlen]
  · grind
  · rw [hfst]
    exact List.nodup_range
  · exact hfree p hp (hlive q.2 (hmem q hq).2 p.1 hr)
  · rintro _ x2 ⟨hscopes', heff⟩
    rw [hfst, hsnd] at heff
    refine ⟨hscopes'.trans hscopes, ((hcode.effect x.live _).trans heff).mono (fun _ => id) (fun _ _ => id) ?_⟩
    intro env s hs i f hi
    obtain ⟨hlt, rfl⟩ := List.getElem?_eq_some_iff.1 hi
    have := (List.forall₂_iff_get.1 hs).2 i (by rw [List.length_range]; omega) hlt
    simpa using this

theorem live_pushed (hscopes : x'.writer.scopes = [] :: x.writer.scopes) : x'.live = x.live := by
  rw [live, hscopes, List.flatten_cons, List.nil_append, live]

/-- A scope of its own holds the operands, and the result takes the register of one of them, which the scope around it
inherits. -/
theorem inPlace_leads {α : Type} {x1 x2 : Sketch} {i : Instr} {dst : Nat} {vs : List Value}
    {R : α → Sketch → Prop} {k : Unit → Lowering α} (h : Usable x scope) (hpush : Computes x x1 [])
    (hscopes : x1.writer.scopes = [] :: x.writer.scopes) (hheld : Held x1 x2 vs fs) (hdst : ∃ v ∈ vs, dst ∈ v.regs)
    (hi : ∀ pool env s, Value.DenoteAll vs fs env s →
      ∃ z, i.effect pool s = some (s.put dst z) ∧ z.Alike (g env))
    (hk : ∀ x', Held x x' [.reg dst] [g] → Leads x' R (k ())) :
    Leads x2 R (write (emit i) >>= fun _ => write (popExcept (some dst)) >>= k) := by
  obtain ⟨new, hscopes2, hnew⟩ := hheld.scopes
  obtain ⟨v, hv, hr⟩ := hdst
  obtain ⟨hmem, hlow⟩ := hnew v hv dst hr
  rw [hscopes, grow_cons, List.nil_append] at hscopes2
  have hfree : dst ∉ x.live := notMem_of_innermost hheld.effect.registers hscopes2 hmem
  refine .bind (emit_put (P := Value.DenoteAll vs fs) (Q := Value.DenoteAll [.reg dst] [g]) hheld.effect.registers
    hlow hfree
    ?_) ?_
  · intro pool _ env s _ hs
    obtain ⟨z, heff, hz⟩ := hi pool env s hs
    refine ⟨z, heff, List.forall₂_cons.2 ⟨⟨hlow, ?_⟩, .nil⟩⟩
    rwa [Store.get_put_self]
  · rintro _ x3 ⟨hscopes3, heff⟩
    refine .bind (popExcept_leads heff.registers (hscopes3.trans hscopes2) h.isOpen hmem) ?_
    rintro _ x4 ⟨hpop, hscopes4⟩
    have hvalues : Effect x1 x2 x.live _ _ := live_pushed hscopes ▸ hheld.effect
    exact hk x4 (.reg ((((hpush.effect x.live _).trans hvalues).trans heff).trans (hpop.effect x.live _)) hscopes4 hlow)

theorem applyUnary_leads {p : Part} {f : Env → Number} (hp : p.Means scope f) (h : Usable x scope) (op : UnaryOp) :
    Leads x (fun r x' => Held x x' [.reg r] [fun env => op.eval (f env)]) (Lowering.applyUnary op p) := by
  refine .bind (push_leads h.registers) ?_
  rintro _ x1 ⟨hpush, hscopes⟩
  have hx1 := h.pushed hpush hscopes
  refine .bind (inReg_leads hx1 (hp x1 hx1)) fun r x2 hr => ?_
  refine inPlace_leads h hpush hscopes hr ⟨_, List.mem_singleton_self _, List.mem_singleton_self r⟩ ?_
    fun x' hx' => .pure hx'
  intro pool env s hs
  obtain ⟨⟨hlow, hlike⟩, -⟩ := List.forall₂_cons.1 hs
  refine ⟨op.eval (s.get r), ?_, hlike.unary op⟩
  rw [Instr.effect, if_pos ⟨hlow, hlow⟩]

theorem meaning_of_operatorOp? {op : Operator} {b : BinaryOp} {swapped : Bool}
    (h : operatorOp? op = some (b, swapped)) (y z : Number) :
    op.meaning y z = if swapped then b.eval z y else b.eval y z := by
  cases op <;> cases h <;> rfl

theorem applyMath_leads {args : List Part} {all : List (Env → Number)} {op : SyncOp} {code : Nat}
    {first last : Option Number} (hargs : List.Forall₂ (fun p f => p.Means scope f) args fs) (h : Usable x scope)
    (hconst : ∀ c ∈ first.toList ++ last.toList, c ≠ -0 ∧ c.isNaN = false)
    (hall : first.toList.map (fun c _ => c) ++ fs ++ last.toList.map (fun c _ => c) = all)
    (hpos : 0 < all.length) (hcount : all.length ≤ 16)
    (hop : ∀ pool env s, (∀ (i : Nat) (f : Env → Number), all[i]? = some f → (s.get i).Alike (f env)) →
      ∃ z, (Instr.sync op code 0 0 0).effect pool s = some (s.put 0 z) ∧ z.Alike (g env)) :
    Leads x (fun r x' => Held x x' [.reg r] [g]) (Lowering.applyMath op code first args last) := by
  refine .bind (push_leads h.registers) ?_
  rintro _ x1 ⟨hpush, hscopes1⟩
  have hx1 := h.pushed hpush hscopes1
  refine .bind (numbers_leads hargs hx1) fun vs x2 hvs => ?_
  have hx2 := hvs.usable hx1
  have hfirst := Held.constants hx1.registers fun c hc => hconst c (List.mem_append_left _ hc)
  have hlast := Held.constants hx2.registers fun c hc => hconst c (List.mem_append_right _ hc)
  have hheld := (hfirst.append hvs hx1.isOpen).append hlast hx1.isOpen
  rw [hall] at hheld
  have hlen := hheld.length
  obtain ⟨new, hscopes2, -⟩ := hheld.scopes
  refine .bind (passValues_leads hx2 (hlen ▸ hcount) hlen (hheld.regs_subset hx1.isOpen)) ?_
  rintro _ x3 ⟨hscopes3, hpass⟩
  rw [hscopes2, hscopes1, grow_cons, grow_cons] at hscopes3
  have hfree : 0 ∉ x.live :=
    notMem_of_innermost hpass.registers hscopes3 (List.mem_append_right _ (List.mem_range.2 (hlen ▸ hpos)))
  have hsync := @emit_put x3 x.live (.sync op code 0 0 0) hpass.registers 0 (by decide) hfree
    (fun env s => ∀ (i : Nat) (f : Env → Number), all[i]? = some f → (s.get i).Alike (f env))
    (fun env s => (s.get 0).Alike (g env)) fun pool _ env s _ hs => by
      obtain ⟨z, heff, hz⟩ := hop pool env s hs
      exact ⟨z, heff, by rwa [Store.get_put_self]⟩
  refine .bind hsync ?_
  rintro _ x4 ⟨hscopes4, hsync⟩
  refine .bind (pop_leads hsync.registers (hscopes4.trans hscopes3)) ?_
  rintro _ x5 ⟨hpop, hscopes5⟩
  refine .bind (allocReg_leads hpop.registers (hscopes5 ▸ h.isOpen)) ?_
  rintro r x6 ⟨halloc, hscopes6, hlow, hunused⟩
  rw [live, hscopes5] at hunused
  have hmove := @emit_put x6 x.live (.unary .id r 0) halloc.registers r hlow hunused
    (fun env s => (s.get 0).Alike (g env)) (Value.DenoteAll [.reg r] [g]) fun pool _ env s _ hs => by
      refine ⟨s.get 0, ?_, List.forall₂_cons.2 ⟨⟨hlow, by rwa [Store.get_put_self]⟩, .nil⟩⟩
      rw [Instr.effect, if_pos ⟨hlow, by decide⟩]
      rfl
  refine .bind hmove ?_
  rintro _ x7 ⟨hscopes7, hmove⟩
  have hvalues : Effect x1 x2 x.live _ _ := live_pushed hscopes1 ▸ hheld.effect
  have hpassed := hpass.mono (live_pushed hscopes1 ▸ hheld.live_subset hx1.isOpen) (fun _ _ => id) fun _ _ => id
  have hresult := ((((hpush.effect x.live _).trans hvalues).trans hpassed).trans hsync).trans
    (((hpop.trans halloc).effect x.live _).trans hmove)
  exact .pure (.reg hresult (by rw [hscopes7, hscopes6, hscopes5]) hlow)

theorem binary_leads {left right : Part} {f : Env → Number} (hleft : left.Means scope f)
    (hright : right.Means scope g) (h : Usable x scope) (op : Operator) :
    Leads x (fun v x' => Held x x' [v] [fun env => op.meaning (f env) (g env)]) (binary op left right) := by
  rw [binary]
  cases hop : operatorOp? op with
  | none =>
    have hpow : op = .pow := by
      cases op <;> first | rfl | cases hop
    subst hpow
    have hargs : List.Forall₂ (fun p f => p.Means scope f) [left, right] [f, g] := .cons hleft (.cons hright .nil)
    refine .bind (applyMath_leads hargs h nofun rfl (by simp) (by simp) fun pool env s hs => ?_) fun r x' hr => .pure hr
    exact ⟨_, rfl, (hs 0 f rfl).math2 .pow (hs 1 g rfl)⟩
  | some found =>
    obtain ⟨b, swapped⟩ := found
    refine .bind (push_leads h.registers) ?_
    rintro _ x1 ⟨hpush, hscopes⟩
    have hx1 := h.pushed hpush hscopes
    refine .bind (inReg_leads hx1 (hleft x1 hx1)) fun l x2 hl => ?_
    have hx2 := hl.usable hx1
    refine .bind (inReg_leads hx2 (hright x2 hx2)) fun r x3 hr => ?_
    have hboth := hl.append hr hx1.isOpen
    have hregs : ∀ env s, Value.DenoteAll ([.reg l] ++ [.reg r]) ([f] ++ [g]) env s →
        (l < 16 ∧ r < 16) ∧ (s.get l).Alike (f env) ∧ (s.get r).Alike (g env) := by
      intro env s hs
      obtain ⟨⟨hlowl, hlikel⟩, hs⟩ := List.forall₂_cons.1 hs
      obtain ⟨⟨hlowr, hliker⟩, -⟩ := List.forall₂_cons.1 hs
      exact ⟨⟨hlowl, hlowr⟩, hlikel, hliker⟩
    cases swapped with
    | false =>
      refine inPlace_leads h hpush hscopes hboth ⟨.reg l, by simp, by simp [Value.regs]⟩ ?_ fun x' hx' => .pure hx'
      intro pool env s hs
      obtain ⟨hlow, hlikel, hliker⟩ := hregs env s hs
      refine ⟨b.eval (s.get l) (s.get r), by rw [Instr.effect, if_pos hlow], ?_⟩
      rw [meaning_of_operatorOp? hop]
      exact hlikel.binary b hliker
    | true =>
      refine inPlace_leads h hpush hscopes hboth ⟨.reg r, by simp, by simp [Value.regs]⟩ ?_ fun x' hx' => .pure hx'
      intro pool env s hs
      obtain ⟨hlow, hlikel, hliker⟩ := hregs env s hs
      refine ⟨b.eval (s.get r) (s.get l), by rw [Instr.effect, if_pos hlow.symm], ?_⟩
      rw [meaning_of_operatorOp? hop]
      exact hliker.binary b hlikel

theorem scale_leads {x1 : Sketch} {r : Nat} (hr : Held x x1 [.reg r] [g]) (h : Usable x scope)
    {c : Number} (hc : c ≠ -0) (hnan : c.isNaN = false) :
    Leads x1 (fun r x' => Held x x' [.reg r] [fun env => BinaryOp.mul.eval (g env) c]) (do
      push
      let t ← allocReg
      Lowering.loadFloat t c
      emitBinary .mul r t
      pop
      return r) := by
  obtain ⟨new, hscopes1, hnew⟩ := hr.scopes
  obtain ⟨hmem, hlow⟩ := hnew _ (List.mem_singleton_self _) r (List.mem_singleton_self r)
  have hlive : r ∈ x1.live := (mem_live_grow h.isOpen hscopes1 r).2 (.inr hmem)
  have hunused : r ∉ x.live := notMem_live_of_new hr.effect.registers h.isOpen hscopes1 hmem
  refine .bind (push_leads hr.effect.registers) ?_
  rintro _ x2 ⟨hpush, hscopes2⟩
  refine .bind (allocReg_leads hpush.registers (by rw [hscopes2]; nofun)) ?_
  rintro t x3 ⟨halloc, hscopes3, htlow, hfree⟩
  rw [live_pushed hscopes2] at hfree
  refine .bind (loadFloat_leads halloc.registers htlow hfree c) ?_
  rintro _ x4 ⟨hscopes4, hload⟩
  simp only [hnan, Bool.false_eq_true, if_false] at hload
  have hkept : Stable x1.live (Value.DenoteAll [.reg r] [g]) :=
    stable_forall (fun v hv q hq => by rw [List.mem_singleton.1 hv] at hq; rwa [List.mem_singleton.1 hq]) _
  have hmul := @emit_put x4 x.live (.binary .mul r t) hload.registers r hlow hunused
    (fun env s => Value.DenoteAll [.reg r] [g] env s ∧ s.get t = c)
    (Value.DenoteAll [.reg r] [fun env => BinaryOp.mul.eval (g env) c]) fun pool _ env s _ hs => by
      obtain ⟨hs, hfactor⟩ := hs
      refine ⟨_, by rw [Instr.effect, if_pos ⟨hlow, htlow⟩], List.forall₂_cons.2 ⟨⟨hlow, ?_⟩, .nil⟩⟩
      rw [Store.get_put_self, hfactor]
      exact (List.forall₂_cons.1 hs).1.2.binary .mul (.refl c)
  refine .bind hmul ?_
  rintro _ x5 ⟨hscopes5, hmul⟩
  rw [hscopes4, hscopes3, hscopes2, grow_cons] at hscopes5
  refine .bind (pop_leads hmul.registers hscopes5) ?_
  rintro _ x6 ⟨hpop, hscopes6⟩
  refine .pure ⟨rfl, ?_, new, hscopes6.trans hscopes1, hnew⟩
  have hboth := (hload.frame hkept).mono (hr.live_subset h.isOpen) (fun env s hs => ⟨hs, hc⟩) fun _ _ => id
  have hready := hr.effect.trans ((hpush.trans halloc).effect x.live _)
  exact ((hready.trans hboth).trans hmul).trans (hpop.effect x.live _)

end Sketch

/-- What an operation of the machine gives for its operands. -/
def Math.Primitive.value? : Primitive → List Number → Option Number
  | .unary op, [y] => some (op.eval y)
  | .one op, [y] => op.value? y
  | .two op, [y, z] => some (op.eval y z)
  | _, _ => none

def Math.Primitive.arity : Primitive → Nat
  | .unary _ => 1
  | .one _ => 1
  | .two _ => 2

theorem Math.Primitive.length_of_value? {p : Primitive} {ys : List Number} {z : Number} (h : p.value? ys = some z) :
    ys.length = p.arity := by
  rw [value?.eq_def] at h
  split at h
  · rfl
  · rfl
  · rfl
  · cases h

theorem Math1.alike_value? {op : Math1} {y y' z : Number} (h : y'.Alike y) (hz : op.value? y = some z) :
    ∃ z', op.value? y' = some z' ∧ z'.Alike z := by
  cases op with
  | floor | ceil => cases hz; exact ⟨_, rfl, h.round _⟩
  | round => cases hz; exact ⟨_, rfl, h.roundHalfUp⟩
  | logE => cases hz; exact ⟨_, rfl, h.log⟩
  | random => cases hz

theorem Math.meaning_eq {name : String} {f : Function} (h : function? name = some f) (hname : name ≠ "random")
    {ys : List Number} (hlen : ys.length = f.numArgs) :
    ∃ z, f.op.value? (f.first.toList ++ ys ++ f.last.toList) = some z ∧
      Math.meaning name ys = f.scale.elim z (BinaryOp.mul.eval z) := by
  rw [function?.eq_def] at h
  split at h
  all_goals first | exact absurd rfl hname | cases h
  all_goals first
    | obtain ⟨y, rfl⟩ := List.length_eq_one_iff.1 hlen
      exact ⟨_, rfl, rfl⟩
    | obtain ⟨y, z, rfl⟩ := List.length_eq_two.1 hlen
      exact ⟨_, rfl, rfl⟩

theorem Math.constants_ok {name : String} {f : Function} (h : function? name = some f) :
    ∀ c ∈ f.first.toList ++ f.last.toList ++ f.scale.toList, c ≠ -0 ∧ c.isNaN = false := by
  rw [function?.eq_def] at h
  split at h
  all_goals cases h
  all_goals decide +kernel

namespace Sketch

variable {x : Sketch} {scope : List String}

variable {fs : List (Env → Number)}

theorem applyPrimitive_leads {f : Math.Function} {args : List Part} {all : List (Env → Number)} {g : Env → Number}
    (hargs : List.Forall₂ (fun p f => p.Means scope f) args fs) (h : Usable x scope)
    (hconst : ∀ c ∈ f.first.toList ++ f.last.toList, c ≠ -0 ∧ c.isNaN = false)
    (hall : f.first.toList.map (fun c _ => c) ++ fs ++ f.last.toList.map (fun c _ => c) = all)
    (hvalue : ∀ env, f.op.value? (all.map (· env)) = some (g env)) :
    Leads x (fun r x' => Held x x' [.reg r] [g]) (applyPrimitive f args) := by
  have hlen : all.length = f.op.arity := by
    rw [← Math.Primitive.length_of_value? (hvalue .zero), List.length_map]
  rw [applyPrimitive]
  cases hop : f.op with
  | unary op =>
    rw [hop] at hvalue hlen
    obtain ⟨a, rfl⟩ := List.length_eq_one_iff.1 hlen
    cases hargs with
    | nil => trivial
    | @cons p f0 args fs hp hargs =>
      have hf : f0 = a := by grind
      subst hf
      have hg : g = fun env => op.eval (f0 env) := funext fun env => (Option.some.inj (hvalue env)).symm
      subst hg
      exact applyUnary_leads hp h op
  | one op =>
    rw [hop] at hvalue hlen
    obtain ⟨a, rfl⟩ := List.length_eq_one_iff.1 hlen
    refine applyMath_leads hargs h hconst hall (by simp) (by simp) fun pool env s hs => ?_
    obtain ⟨z, hz, hlike⟩ := Math1.alike_value? (hs 0 a rfl) (hvalue env)
    refine ⟨z, ?_, hlike⟩
    rw [Instr.effect, Math1.ofCode?_code, Option.bind_some, hz]
    rfl
  | two op =>
    rw [hop] at hvalue hlen
    obtain ⟨a, b, rfl⟩ := List.length_eq_two.1 hlen
    refine applyMath_leads hargs h hconst hall (by simp) (by simp) fun pool env s hs => ?_
    refine ⟨op.eval (s.get 0) (s.get 1), ?_, ?_⟩
    · rw [Instr.effect, Math2.ofCode?_code]
      rfl
    · rw [← Option.some.inj (hvalue env)]
      exact (hs 0 a rfl).math2 op (hs 1 b rfl)

theorem applyFunction_leads {name : String} {f : Math.Function} {args : List Part}
    (hf : Math.function? name = some f) (hname : name ≠ "random") (hcount : args.length = f.numArgs)
    (hargs : List.Forall₂ (fun p f => p.Means scope f) args fs) (h : Usable x scope) :
    Leads x (fun r x' => Held x x' [.reg r] [fun env => Math.meaning name (fs.map (· env))])
      (Lowering.applyFunction f args) := by
  have hconst := Math.constants_ok hf
  have hlen : ∀ env, (fs.map (· env)).length = f.numArgs := fun env => by
    rw [List.length_map, ← hargs.length_eq, hcount]
  choose g hg hmeaning using fun env => Math.meaning_eq hf hname (hlen env)
  have hvalue : ∀ env, f.op.value? ((f.first.toList.map (fun c _ => c) ++ fs ++
      f.last.toList.map fun c _ => c).map fun k : Env → Number => k env) = some (g env) := by
    intro env
    have hconstants : ∀ cs : List Number, (cs.map fun c _ => c).map (fun k : Env → Number => k env) = cs := fun cs => by
      rw [List.map_map]
      exact List.map_id cs
    rw [List.map_append, List.map_append, hconstants, hconstants, hg env]
  refine .bind (applyPrimitive_leads hargs h (fun c hc => hconst c (List.mem_append_left _ hc)) rfl hvalue)
    fun r x1 hr => ?_
  cases hscale : f.scale with
  | none =>
    refine .pure ?_
    rwa [show (fun env => Math.meaning name (fs.map (· env))) = g from funext fun env => by rw [hmeaning, hscale]; rfl]
  | some c =>
    obtain ⟨hc, hnan⟩ := hconst c (List.mem_append_right _ (by rw [hscale]; exact List.mem_singleton_self c))
    rw [show (fun env => Math.meaning name (fs.map (· env))) = fun env => BinaryOp.mul.eval (g env) c from
      funext fun env => by rw [hmeaning, hscale]; rfl]
    exact scale_leads hr h hc hnan

theorem callMath_leads {name : String} {call : CallSite} (hname : name ≠ "random")
    (hargs : List.Forall₂ (fun p f => p.Means scope f) call.args fs) (h : Usable x scope) :
    Leads x (fun v x' => Held x x' [v] [fun env => Math.meaning name (fs.map (· env))])
      (callMath name call) := by
  rw [callMath]
  cases hf : Math.function? name with
  | none => trivial
  | some f =>
    change Leads x _ (requireArgs _ call f.numArgs >>= fun _ => _)
    have hrequire : Leads x (fun _ x' => x' = x ∧ call.args.length = f.numArgs)
        (requireArgs s!"Math.{name}" call f.numArgs) := by
      rw [requireArgs]
      split
      · trivial
      · next hcount => exact .pure ⟨rfl, Classical.not_not.1 hcount⟩
    refine .bind hrequire ?_
    rintro _ _ ⟨rfl, hcount⟩
    exact .bind (applyFunction_leads hf hname hcount hargs h) fun r x' hr => .pure hr

theorem held_float (h : x.writer.Registers) {c : Number} (hc : c ≠ -0) {f : Env → Number}
    (hf : ∀ env, (if c.isNaN then Number.nan else c).Alike (f env)) : Held x x [.float c] [f] :=
  .still h rfl (fun v hv => by rw [List.mem_singleton.1 hv]; rfl) fun env _ _ =>
    List.forall₂_cons.2 ⟨⟨hc, hf env⟩, .nil⟩

theorem literal_leads (h : x.writer.Registers) {value : Literal} {span : Span}
    (hplain : (Expr.literal span value).isPlain scope = true) :
    Leads x (fun v x' => Held x x' [v] [fun _ => value.meaning]) (literal value) := by
  have hproper : ∀ c : Number, c.isNaN = false → (if c.isNaN then Number.nan else c).Alike c := fun c hc => by
    rw [hc]
    exact .refl c
  cases value with
  | number c => exact .pure (held_float h (of_decide_eq_true hplain) fun _ => .refl _)
  | bool b => cases b <;> exact .pure (held_float h (by decide +kernel) fun _ => hproper _ (by decide +kernel))
  | null => exact .pure (held_float h (by decide +kernel) fun _ => .refl _)
  | string s => cases hplain

theorem identifier_leads (h : Usable x scope) {id : Ident} (hid : id.name ∈ scope) :
    Leads x (fun v x' => Held x x' [v] [fun env => env id.name]) (Lowering.identifier id) := by
  obtain ⟨i, hi⟩ := exists_findIdx?_of_mem (h.names id.name hid)
  refine .get_bind ?_
  rw [resolve?_draft, hi]
  refine .pure (.still h.registers rfl (fun v hv => ?_) fun env s hs => ?_)
  · rw [List.mem_singleton.1 hv]
    rfl
  · exact List.forall₂_cons.2 ⟨hs i id.name (getElem?_of_findIdx? hi), .nil⟩

theorem truthy_literal (c : Number) : (if c.isNaN then Number.nan else c).truthy = c.truthy := by
  split
  · next hnan => rw [Number.isQuiet_nan.truthy, Number.truthy, hnan, Bool.not_true, Bool.and_false]
  · rfl

theorem foldSign_alike {op : Sign} {c : Number} (hc : c ≠ -0) (hop : op = .neg → c.isZero = false) :
    foldSign op c ≠ -0 ∧ Number.Alike
      (if (foldSign op c).isNaN then Number.nan else foldSign op c)
      (op.meaning (if c.isNaN then Number.nan else c)) := by
  cases op with
  | plus => exact ⟨hc, .refl _⟩
  | neg =>
    have hnan : (-c).isNaN = c.isNaN := by rw [Number.isNaN, Number.abs_neg, Number.isNaN]
    refine ⟨fun heq => ?_, ?_⟩
    · have hzero : c.isZero = true := by
        rw [Number.isZero, ← Number.abs_neg, show -c = -0 from heq]
        decide
      rw [hop rfl] at hzero
      cases hzero
    · rw [show foldSign .neg c = -c from rfl, hnan]
      split
      · exact .of_isNaN Number.isQuiet_nan Number.isQuiet_nan.neg
      · exact .refl _
  | not =>
    have hbool : ∀ b, Number.ofBool b ≠ -0 ∧ (Number.ofBool b).isNaN = false := by decide +kernel
    obtain ⟨hzero, hnan⟩ := hbool (!c.truthy)
    refine ⟨hzero, ?_⟩
    rw [show foldSign .not c = Number.ofBool (!c.truthy) from rfl, hnan, Sign.meaning, UnaryOp.eval,
      truthy_literal]
    exact .refl _

theorem unary_leads {operand : Part} {op : Sign} {f : Env → Number} (hp : operand.Means scope f) (h : Usable x scope)
    (hnumber : ∀ c, operand.expr.number? = some c → c ≠ -0 ∧ (op = .neg → c.isZero = false) ∧
      ∀ env, f env = if c.isNaN then Number.nan else c) :
    Leads x (fun v x' => Held x x' [v] [fun env => op.meaning (f env)]) (unary op operand) := by
  rw [unary]
  cases hc : operand.expr.number? with
  | some c =>
    obtain ⟨hzero, hneg, hf⟩ := hnumber c hc
    obtain ⟨hzero, hlike⟩ := foldSign_alike hzero hneg
    exact .pure (held_float h.registers hzero fun env => hf env ▸ hlike)
  | none =>
    refine .bind (applyUnary_leads hp h (signOp op)) fun r x' hr => .pure ?_
    cases op <;> exact hr

end Sketch

theorem Expr.eq_literal_of_number? {e : Expr} {c : Number} (h : e.number? = some c) :
    ∃ span, e = .literal span (.number c) := by
  rw [number?.eq_def] at h
  split at h
  · cases h
    exact ⟨_, rfl⟩
  · cases h

theorem Expr.evalAll_eq (env : Env) (es : List Expr) :
    Expr.evalAll env es = (es.map fun e env => e.eval env).map (· env) := by
  induction es with
  | nil => rfl
  | cons e rest ih => rw [evalAll, ih, List.map_cons, List.map_cons]

open Sketch

mutual

theorem lowerExpr_means {scope : List String} (e : Expr) (hplain : e.isPlain scope = true) :
    Part.Means ⟨e, lowerExpr e, lowerBody e⟩ scope fun env => e.eval env := by
  intro x h
  cases e with
  | literal span value =>
    simp only [lowerExpr, Expr.eval]
    exact .located (literal_leads h.registers hplain)
  | ident id =>
    simp only [lowerExpr, Expr.eval]
    exact .located (identifier_leads h (of_decide_eq_true hplain))
  | unary span op operand =>
    simp only [lowerExpr, Expr.eval]
    rw [Expr.isPlain, Bool.and_eq_true, Bool.or_eq_true] at hplain
    refine .located (unary_leads (lowerExpr_means operand hplain.1) h fun c hc => ?_)
    obtain ⟨span', rfl⟩ := Expr.eq_literal_of_number? hc
    refine ⟨of_decide_eq_true hplain.1, fun hop => ?_, fun _ => rfl⟩
    simp_all
  | binary span op left right =>
    simp only [lowerExpr, Expr.eval]
    rw [Expr.isPlain, Bool.and_eq_true] at hplain
    exact .located (binary_leads (lowerExpr_means left hplain.1) (lowerExpr_means right hplain.2) h op)
  | call span callee args =>
    cases callee with
    | member span' object name =>
      rw [Expr.isPlain, Bool.and_eq_true, Bool.and_eq_true] at hplain
      obtain ⟨⟨hmath, hname⟩, hargs⟩ := hplain
      simp only [lowerExpr, Expr.eval]
      refine .located ?_
      rw [Lowering.callMember, if_pos hmath]
      simp only [Expr.evalAll_eq]
      exact @callMath_leads x scope _ name.name ⟨span, lowerParts args⟩ (of_decide_eq_true hname)
        (lowerParts_means args hargs) h
    | _ => cases hplain
  | _ => cases hplain

theorem lowerParts_means {scope : List String} (es : List Expr) (hplain : Expr.allPlain scope es = true) :
    List.Forall₂ (fun p f => p.Means scope f) (lowerParts es) (es.map fun e env => e.eval env) := by
  cases es with
  | nil => exact .nil
  | cons e rest =>
    rw [Expr.allPlain, Bool.and_eq_true] at hplain
    exact .cons (lowerExpr_means e hplain.1) (lowerParts_means rest hplain.2)

end

end BusScript
