import BusScript.Proofs.Histories

namespace BusScript

/-- The moments from `a` on, until the call is over. -/
def Moment.toEnd : Nat → Moment → List Moment
  | 0, a => [a]
  | fuel + 1, a =>
    match a.next? with
    | some b => a :: b.toEnd fuel
    | none => [a]

def Machine.trail : List Deed → Machine → List Moment
  | [], m => [.rest m]
  | .clock now :: rest, m => .rest m :: trail rest { m with host := { m.host with now } }
  | .call call :: rest, m =>
    if m.panic.isSome then [.rest m]
    else
      let last := ((call.first m).toEnd 64).getLast?.getD (.rest m)
      .rest m :: ((call.first m).toEnd 64 ++
        if last.isOver then trail rest { last.machine with overrun := none } else [])

theorem Moment.isChain_toEnd (fuel : Nat) (a : Moment) :
    (a.toEnd fuel).IsChain Moment.Follows ∧ (a.toEnd fuel).head? = some a := by
  induction fuel generalizing a with
  | zero => exact ⟨.singleton _, rfl⟩
  | succ fuel ih =>
    rw [Moment.toEnd]
    split
    · next b hnext =>
      obtain ⟨hchain, hhead⟩ := ih b
      refine ⟨List.isChain_cons.2 ⟨fun c hc => ?_, hchain⟩, rfl⟩
      rw [hhead, Option.mem_some_iff] at hc
      exact .next (hc ▸ hnext)
    · exact ⟨.singleton _, rfl⟩

theorem Machine.isChain_trail (deeds : List Deed) (m : Machine) :
    (m.trail deeds).IsChain Moment.Follows ∧ (m.trail deeds).head? = some (.rest m) := by
  induction deeds generalizing m with
  | nil => exact ⟨.singleton _, rfl⟩
  | cons deed rest ih =>
    cases deed with
    | clock now =>
      obtain ⟨hchain, hhead⟩ := ih { m with host := { m.host with now } }
      refine ⟨List.isChain_cons.2 ⟨fun b hb => ?_, hchain⟩, rfl⟩
      rw [hhead, Option.mem_some_iff] at hb
      exact hb ▸ .host _
    | call call =>
      rw [Machine.trail]
      split
      · exact ⟨.singleton _, rfl⟩
      · next hpanic =>
        obtain ⟨hchain, hhead⟩ := (call.first m).isChain_toEnd 64
        refine ⟨?_, rfl⟩
        refine List.isChain_cons.2 ⟨fun b hb => ?_, List.IsChain.append hchain ?_ fun a ha b hb => ?_⟩
        · rw [List.head?_append, hhead, Option.some_or, Option.mem_some_iff] at hb
          rw [← hb]
          exact .call (Option.not_isSome_iff_eq_none.1 hpanic) call
        · grind
        · split at hb
          · next hover =>
            rw [(ih _).2, Option.mem_some_iff] at hb
            rw [Option.mem_def.1 ha] at hb hover
            exact hb ▸ .returns hover
          · cases hb

def Machine.history (deeds : List Deed) (m : Machine) (k : Nat) : Moment := (m.trail deeds)[k]?.getD (.rest m)

theorem Machine.history_zero (deeds : List Deed) (m : Machine) : m.history deeds 0 = .rest m := by
  rw [Machine.history, ← List.head?_eq_getElem?, (Machine.isChain_trail deeds m).2, Option.getD_some]

variable {deeds : List Deed} {m : Machine} {k : Nat}

theorem Machine.history_mem (hk : k < (m.trail deeds).length) : m.history deeds k ∈ m.trail deeds := by
  rw [Machine.history, List.getElem?_eq_getElem hk]
  exact List.getElem_mem hk

theorem Machine.follows_history (hk : k + 1 < (m.trail deeds).length) :
    (m.history deeds k).Follows (m.history deeds (k + 1)) := by
  rw [Machine.history, Machine.history, List.getElem?_eq_getElem hk, List.getElem?_eq_getElem (Nat.lt_of_succ_lt hk)]
  exact (Machine.isChain_trail deeds m).1.getElem k hk

theorem Machine.reached_history (hk : k < (m.trail deeds).length) : Moment.Reached m (m.history deeds k) := by
  induction k with
  | zero =>
    rw [Machine.history_zero]
    exact .refl
  | succ k ih => exact (ih (Nat.lt_of_succ_lt hk)).follows (Machine.follows_history hk)

def loadsTo (config : Config) (script : List Stmt) (host : Host) (check : Machine → Bool) : Bool :=
  match compile Catalog.builtin {} script with
  | .error _ => false
  | .ok compiled =>
    match Machine.new compiled.image host config (.ofSeed 1) with
    | .error _ => false
    | .ok m => check m

theorem exists_of_loadsTo {config : Config} {script : List Stmt} {host : Host} {check : Machine → Bool}
    (h : loadsTo config script host check = true) :
    ∃ compiled m, compile Catalog.builtin {} script = .ok compiled ∧
      Machine.new compiled.image host config (.ofSeed 1) = .ok m ∧ check m = true := by
  rw [loadsTo] at h
  split at h
  · cases h
  · next compiled hcompile =>
    split at h
    · cases h
    · next m hnew => exact ⟨compiled, m, hcompile, hnew, h⟩

def loadsCleanly (script : List Stmt) (host : Host) (check : Machine → Bool) : Bool :=
  match compile Catalog.builtin {} script with
  | .error _ => false
  | .ok compiled =>
    match Machine.new compiled.image host {} (.ofSeed 1) with
    | .error _ => false
    | .ok m => compiled.numErrors == 0 && check m

theorem exists_of_loadsCleanly {script : List Stmt} {host : Host} {check : Machine → Bool}
    (h : loadsCleanly script host check = true) :
    ∃ compiled m, compile Catalog.builtin {} script = .ok compiled ∧ compiled.numErrors = 0 ∧
      Machine.new compiled.image host {} (.ofSeed 1) = .ok m ∧ check m = true := by
  rw [loadsCleanly] at h
  grind

def buttonHost : Host := { devices := [⟨⟨1⟩, [0, Builtin.buttonClass]⟩] }

def press : Packet := .event ⟨1⟩ 1 0x01 #[]

end BusScript
