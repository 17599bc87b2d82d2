import BusScript.Code.Writer
import BusScript.Proofs.Encoding

/-!
The code of a procedure as a row of items: instructions, and jumps to labels. Until the end the words of a
jump leave its distance open; patching fills it in and touches nothing else.
-/

namespace BusScript

inductive Item where
  | instr (i : Instr)
  | jump (label : Nat) (ifZero : Option Nat)
  deriving DecidableEq, Repr

namespace Item

def jumpArg : Option Nat → Nat
  | some r => r * 256 ||| 64
  | none => 0

def ahead (place target : Nat) : Int := (target : Int) - place - 2

def lowBits (ahead : Int) : Nat := ahead.natAbs % 64 ||| if ahead < 0 then 128 else 0

def jumpWords (ifZero : Option Nat) (place : Nat) : Option Nat → List Word
  | none => [Word.make .setB 0, Word.make .jump (jumpArg ifZero)]
  | some target =>
    [Word.make .setB ((ahead place target).natAbs / 64),
      Word.make .jump (jumpArg ifZero ||| lowBits (ahead place target))]

def length : Item → Nat
  | .instr i => i.words.length
  | .jump .. => 2

def render (target : Nat → Option Nat) : Nat → List Item → List Word
  | _, [] => []
  | place, .instr i :: rest => i.words ++ render target (place + i.words.length) rest
  | place, .jump _ ifZero :: rest =>
    jumpWords ifZero place (target place) ++ render target (place + 2) rest

def jumps : Nat → List Item → List (Nat × Nat)
  | _, [] => []
  | place, .instr i :: rest => jumps (place + i.words.length) rest
  | place, .jump label _ :: rest => (place, label) :: jumps (place + 2) rest

def extent (items : List Item) : Nat := (items.map length).sum

variable {items more : List Item} {place : Nat} {target : Nat → Option Nat}

@[simp] theorem extent_nil : extent [] = 0 := rfl

@[simp] theorem extent_cons (item : Item) (items : List Item) :
    extent (item :: items) = item.length + extent items := by
  simp [extent]

@[simp] theorem extent_append (items more : List Item) : extent (items ++ more) = extent items + extent more := by
  simp [extent]

@[simp] theorem length_jumpWords (ifZero : Option Nat) (place : Nat) (target : Option Nat) :
    (jumpWords ifZero place target).length = 2 := by
  cases target <;> rfl

theorem length_render : (render target place items).length = extent items := by
  induction items generalizing place with
  | nil => rfl
  | cons item rest ih =>
    cases item with
    | instr | jump => simp [render, ih, length]

theorem render_append : render target place (items ++ more) =
    render target place items ++ render target (place + extent items) more := by
  induction items generalizing place with
  | nil => rfl
  | cons item rest ih =>
    cases item with
    | instr | jump => simp [render, ih, length, Nat.add_assoc]

theorem jumps_append : jumps place (items ++ more) = jumps place items ++ jumps (place + extent items) more := by
  induction items generalizing place with
  | nil => rfl
  | cons item rest ih =>
    cases item with
    | instr | jump => simp [jumps, ih, length, Nat.add_assoc]

theorem place_of_mem_jumps {p label : Nat} (h : (p, label) ∈ jumps place items) :
    place ≤ p ∧ p + 2 ≤ place + extent items := by
  induction items generalizing place with
  | nil => cases h
  | cons item rest ih =>
    cases item with
    | instr i =>
      have := ih h
      simp only [extent_cons, length]
      omega
    | jump other ifZero =>
      simp only [extent_cons, length]
      rcases List.mem_cons.1 h with heq | hmem
      · cases heq
        omega
      · have := ih hmem
        omega

theorem label_unique {p label other : Nat} (h : (p, label) ∈ jumps place items)
    (h' : (p, other) ∈ jumps place items) : label = other := by
  induction items generalizing place with
  | nil => cases h
  | cons item rest ih =>
    cases item with
    | instr i => exact ih h h'
    | jump first ifZero =>
      rcases List.mem_cons.1 h with heq | hmem <;> rcases List.mem_cons.1 h' with heq' | hmem'
      · cases heq
        cases heq'
        rfl
      · cases heq
        have := place_of_mem_jumps hmem'
        omega
      · cases heq'
        have := place_of_mem_jumps hmem
        omega
      · exact ih hmem hmem'

theorem render_congr {other : Nat → Option Nat} (h : ∀ p label, (p, label) ∈ jumps place items → target p = other p) :
    render target place items = render other place items := by
  induction items generalizing place with
  | nil => rfl
  | cons item rest ih =>
    cases item with
    | instr i => rw [render, render, ih h]
    | jump label ifZero =>
      rw [render, render, h place label (List.mem_cons_self ..), ih fun p l hmem => h p l (List.mem_cons_of_mem _ hmem)]

def orBits (bits : Nat) (w : Word) : Word := ⟨w.bits ||| bits.toUInt16⟩

theorem orBits_make {cls : OpClass} {arg bits : Nat} (harg : arg ≤ 0xfff) (hbits : bits ≤ 0xfff) :
    orBits bits (Word.make cls arg) = Word.make cls (arg ||| bits) := by
  have hcode : cls.code ≤ 12 := by cases cls <;> decide
  have hor : arg ||| bits < 2 ^ 12 := Nat.or_lt_two_pow (by omega) (by omega)
  have hsum : cls.code * 4096 + arg ||| bits = cls.code * 4096 + (arg ||| bits) := by
    have hleft : cls.code * 2 ^ 12 ||| arg = cls.code * 2 ^ 12 + arg := or_eq_add 12 (by omega)
    have hright := or_eq_add (x := cls.code) 12 hor
    grind
  simp only [orBits, Word.make, Word.mk.injEq]
  rw [← UInt16.toNat_inj, UInt16.toNat_or]
  simp only [Nat.toUInt16, UInt16.toNat_ofNat']
  rw [Nat.mod_eq_of_lt (by omega : cls.code * 4096 + arg < 2 ^ 16), Nat.mod_eq_of_lt (by omega : bits < 2 ^ 16), hsum]
  exact (Nat.mod_eq_of_lt (by simp only [Nat.reducePow] at hor ⊢; omega)).symm

theorem modify_append_right {α : Type} (xs ys : List α) (i : Nat) (f : α → α) :
    (xs ++ ys).modify (xs.length + i) f = xs ++ ys.modify i f := by
  induction xs with
  | nil => simp
  | cons x xs ih => simp [Nat.add_right_comm, ih]

def Conditions (items : List Item) : Prop :=
  ∀ label r, .jump label (some r) ∈ items → r < 16

theorem jumpArg_le {ifZero : Option Nat} (h : ∀ r, ifZero = some r → r < 16) : jumpArg ifZero ≤ 0xfff := by
  cases ifZero with
  | none => exact Nat.zero_le _
  | some r =>
    have hr := h r rfl
    have harg : r * 2 ^ 8 ||| 64 = r * 2 ^ 8 + 64 := or_eq_add 8 (by decide)
    simp only [Nat.reducePow] at harg
    simp only [jumpArg, harg]
    omega

theorem lowBits_lt (ahead : Int) : lowBits ahead < 2 ^ 8 := by
  refine Nat.or_lt_two_pow (by omega) ?_
  split <;> decide

theorem jumpWords_patch {ifZero : Option Nat} (hcond : ∀ r, ifZero = some r → r < 16) {p t : Nat}
    (hfar : (ahead p t).natAbs ≤ CodeWriter.maxJump) (rest : List Word) :
    ((jumpWords ifZero p none ++ rest).modify 0 (orBits ((ahead p t).natAbs / 64))).modify 1
        (orBits (lowBits (ahead p t))) = jumpWords ifZero p (some t) ++ rest := by
  rw [CodeWriter.maxJump] at hfar
  have hlow := lowBits_lt (ahead p t)
  simp only [jumpWords, List.cons_append, List.nil_append, List.modify_zero_cons, List.modify_succ_cons]
  rw [orBits_make (by decide) (by omega), orBits_make (jumpArg_le hcond) (by omega), Nat.zero_or]

theorem render_patch {p label t : Nat} (hcond : Conditions items)
    (hmem : (p, label) ∈ jumps place items) (hopen : target p = none)
    (hfar : (ahead p t).natAbs ≤ CodeWriter.maxJump) :
    ((render target place items).modify (p - place) (orBits ((ahead p t).natAbs / 64))).modify
        (p - place + 1) (orBits (lowBits (ahead p t))) =
      render (fun q => if q = p then some t else target q) place items := by
  induction items generalizing place with
  | nil => cases hmem
  | cons item rest ih =>
    have hrest : Conditions rest := fun l r h => hcond l r (List.mem_cons_of_mem _ h)
    cases item with
    | instr i =>
      have hplace := place_of_mem_jumps hmem
      rw [render, render, ← ih hrest hmem,
        show p - place = i.words.length + (p - (place + i.words.length)) by
          simp only [jumps] at hmem; have := place_of_mem_jumps hmem; omega,
        modify_append_right, Nat.add_assoc, modify_append_right]
    | jump first ifZero =>
      rcases List.mem_cons.1 hmem with heq | hmem
      · cases heq
        rw [render, render, if_pos rfl, hopen, Nat.sub_self, Nat.zero_add,
          jumpWords_patch (fun r hr => hcond label r (by simp [hr])) hfar]
        congr 1
        refine render_congr fun q l hq => ?_
        have := place_of_mem_jumps hq
        rw [if_neg (by omega)]
      · have hplace := place_of_mem_jumps hmem
        rw [render, render, if_neg (by omega), ← ih hrest hmem,
          show p - place = (jumpWords ifZero place (target place)).length + (p - (place + 2)) by
            rw [length_jumpWords]; omega,
          modify_append_right, Nat.add_assoc, modify_append_right]

end Item

end BusScript
