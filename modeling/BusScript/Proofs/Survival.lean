import BusScript.Proofs.Places

namespace BusScript

def Fiber.Fits (f : Fiber) : Prop := f.frame.Fits ∧ ∀ frame ∈ f.callers, frame.Fits

namespace Moment

def runsAt (a : Moment) (j depth : Nat) : Bool :=
  a.turn.any (fun turn => turn.index = j ∧ turn.left ≠ 0) && a.machine.fibers[j]?.any (·.callers.length = depth)

/-- A history leads from `a`, where the fiber at `j` runs a word with `depth` callers, to a moment before which the fiber,
which stands at `k` then, has not run another word with as many callers: its frame has not gone on. -/
inductive Away (a : Moment) (j depth : Nat) : Moment → Nat → Prop
  | leaves {b : Moment} {k : Nat} (hfollows : a.Follows b) (hplace : a.place? b j = some k) : Away a j depth b k
  | lasts {b c : Moment} {k l : Nat} (h : Away a j depth b k) (hnot : b.runsAt k depth = false) (hfollows : b.Follows c)
      (hplace : b.place? c k = some l) : Away a j depth c l

variable {a b : Moment} {j k : Nat} {f : Fiber}

variable {depth : Nat}

theorem runsAt_iff : a.runsAt j depth = true ↔ (∃ turn, a.turn = some turn ∧ turn.index = j ∧ turn.left ≠ 0) ∧
      ∃ f, a.machine.fibers[j]? = some f ∧ f.callers.length = depth := by
  simp only [runsAt, Bool.and_eq_true, Option.any_eq_true, decide_eq_true_eq]

theorem fits_of_frames {regs regs' : Registers} {saved : Option RegSet} {f' : Fiber} {flow : Flow}
    (h : Stepping.Frames regs f saved flow regs' f') (hfits : f.Fits) : f'.Fits := by
  cases h with
  | works h | saves h => exact ⟨h.frame.fits hfits.1, h.callers ▸ hfits.2⟩
  | enters hcallers hsaved _ _ hframe =>
    refine ⟨hframe, ?_⟩
    rw [hcallers, List.forall_mem_cons]
    exact ⟨hsaved.fits hfits.1, hfits.2⟩
  | returns hcallers hframe =>
    have hcaller := hfits.2
    rw [hcallers, List.forall_mem_cons] at hcaller
    exact ⟨hframe ▸ Frame.fits_restored hcaller.1, hcaller.2⟩

theorem Carries.fits {f' : Fiber} (h : Carries a b j k f f') (hf : a.machine.fibers[j]? = some f) (hfits : f.Fits) :
    f'.Fits := by
  cases h with
  | rests hcallers hframe => exact ⟨hframe ▸ hfits.1, hcallers ▸ hfits.2⟩
  | runs hturn hindex hleft hstep hfiber hregs hcallers hframe =>
    have hfits' := fits_of_frames (frames_of_step hf hstep hfiber) hfits
    refine ⟨?_, hcallers ▸ hfits'.2⟩
    rcases hframe with hframe | hframe
    · exact hframe ▸ hfits'.1
    · rw [hframe]
      exact hfits'.1
  | goesOn hidle hturn hindex hcallers hframe => exact ⟨hframe ▸ Frame.fits_restored hfits.1, hcallers ▸ hfits.2⟩

theorem fits_of_isNew {image : Image} (h : f.IsNew image) : f.Fits := by
  obtain ⟨id, j, info, args, now, -, rfl⟩ := h
  exact ⟨Frame.fits_enter .., by rintro _ ⟨⟩⟩

/-- As long as the program has not stopped, every frame has room for what it has saved. -/
def Roomy (a : Moment) : Prop := a.machine.panic = none → ∀ f ∈ a.machine.fibers, f.Fits

theorem Follows.roomy (h : a.Follows b) (ha : a.Fit) (hroomy : a.Roomy) : b.Roomy :=
  h.forall_fibers (P := fun _ f => f.Fits) (fun _ _ => fits_of_isNew) (fun h hf _ => h.fits hf) ha hroomy

/-- The frame with `depth` callers of the fiber at `k`, which was `f`, has saved the registers `set` when they were `regs`,
and has not gone on since; or it goes on now, and has them again. -/
inductive Held (f : Fiber) (set : RegSet) (regs : Registers) (a : Moment) (k : Nat) : Prop
  | stopped (hpanic : a.machine.panic.isSome = true)
  | called {f' : Fiber} {caller : Frame} {inner outer : List Frame} (hf' : a.machine.fibers[k]? = some f')
      (hsame : f.Same f') (hcallers : f'.callers = inner ++ caller :: outer) (hdepth : outer.length = f.callers.length)
      (hkeeps : caller.Keeps set regs) (hlocals : f.frame.SameLocals caller)
  | parked {f' : Fiber} (hf' : a.machine.fibers[k]? = some f') (hsame : f.Same f')
      (hidle : ∀ turn, a.turn = some turn → turn.index ≠ k) (hdepth : f'.callers.length = f.callers.length)
      (hkeeps : f'.frame.Keeps set regs) (hlocals : f.frame.SameLocals f'.frame)
  | running {f' : Fiber} {turn : Turn} (hf' : a.machine.fibers[k]? = some f') (hsame : f.Same f')
      (hturn : a.turn = some turn) (hindex : turn.index = k) (hdepth : f'.callers.length = f.callers.length)
      (hregs : ∀ r : Reg, set.has r.val = true → a.machine.registers.get r = regs.get r)
      (hlocals : f.frame.SameLocals f'.frame)

variable {set : RegSet} {regs : Registers} {l : Nat}

theorem held_frame {frame frame1 : Frame} (h : frame = frame1 ∨ frame = frame1.restart) :
    frame.slots = frame1.slots ∧ frame.numLocals = frame1.numLocals ∧ frame.saved = frame1.saved := by
  rcases h with rfl | rfl
  · exact ⟨rfl, rfl, rfl⟩
  · exact ⟨rfl, rfl, rfl⟩

theorem Held.of_saves (hf : a.machine.fibers[j]? = some f) {turn : Turn} (hturn : a.turn = some turn)
    (hindex : turn.index = j) (hsave : a.machine.nextSave? j = some set) (hsteps : a.Steps b)
    (hplace : a.place? b j = some k) : Held f set a.machine.registers b k := by
  rcases hsteps.carries hf hplace with hpanic | ⟨f', hf', hsame, hcarries⟩
  · exact .stopped hpanic
  cases hcarries with
  | rests _ _ hother => exact (hother turn hturn hindex).elim
  | goesOn hidle => rw [hturn] at hidle; cases hidle
  | @runs _ flow m' f1 _ _ _ hstep hfiber hregs hcallers hframe hgoes hparks =>
    have hsaves := frames_of_step hf hstep hfiber
    rw [hsave] at hsaves
    obtain ⟨hslots, hnum, hsaved⟩ := held_frame hframe
    rw [← hregs] at hsaves
    generalize hb : b.machine.registers = regs' at hsaves
    cases hsaves with
    | saves h hkeeps hlocals =>
      have hlocals' : f.frame.SameLocals f'.frame :=
        ⟨hnum.trans hlocals.numLocals, fun i hi => by rw [hslots, hlocals.slots i hi]⟩
      have hdepth : f'.callers.length = f.callers.length := by rw [hcallers, h.callers]
      by_cases hpark : flow = .park
      · refine .parked hf' hsame ?_ hdepth ⟨hsaved.trans hkeeps.saved, fun i r hi => ?_⟩ hlocals'
        · simp_all
        · rw [hslots, hnum, hkeeps.slots i r hi]
      · obtain ⟨turn', hturn', hindex'⟩ := hgoes hpark
        exact .running hf' hsame hturn' hindex' hdepth (fun r _ => by rw [hb]) hlocals'
    | @enters _ _ _ caller hcallers' _ hkeeps hlocals =>
      have hcallers : f'.callers = [] ++ caller :: f.callers := hcallers.trans hcallers'
      exact .called hf' hsame hcallers rfl hkeeps hlocals

theorem Held.steps (h : Held f set regs a j) (hnot : a.runsAt j f.callers.length = false)
    (hpanic : a.machine.panic = none) (hsteps : a.Steps b) (hplace : a.place? b j = some k) :
    Held f set regs b k := by
  cases h with
  | stopped hsome =>
    rw [hpanic] at hsome
    cases hsome
  | @called f' caller inner outer hf' hsame hcallers hdepth hkeeps hlocals =>
    rcases hsteps.carries hf' hplace with hsome | ⟨f'', hf'', hsame', hcarries⟩
    · exact .stopped hsome
    have hsame := hsame.trans hsame'
    cases hcarries with
    | rests hcallers' => exact .called hf'' hsame (hcallers'.trans hcallers) hdepth hkeeps hlocals
    | goesOn _ _ _ hcallers' => exact .called hf'' hsame (hcallers'.trans hcallers) hdepth hkeeps hlocals
    | @runs _ flow m' f1 _ _ _ hstep hfiber hregs hcallers' hframe hgoes hparks =>
      have hframes := frames_of_step hf' hstep hfiber
      rw [← hregs] at hframes
      generalize hb : b.machine.registers = regs', a.machine.nextSave? j = save at hframes
      cases hframes with
      | works hworks | saves hworks =>
        exact .called hf'' hsame (hcallers'.trans (hworks.callers.trans hcallers)) hdepth hkeeps hlocals
      | @enters _ _ _ saved hcallers1 =>
        have hcallers : f''.callers = (saved :: inner) ++ caller :: outer := by
          rw [hcallers', hcallers1, hcallers, List.cons_append]
        exact .called hf'' hsame hcallers hdepth hkeeps hlocals
      | @returns _ caller' hcallers1 hframe1 =>
        rw [hcallers] at hcallers1
        cases inner with
        | cons x inner =>
          rw [List.cons_append, List.cons.injEq] at hcallers1
          exact .called hf'' hsame (hcallers'.trans hcallers1.2.symm) hdepth hkeeps hlocals
        | nil =>
          rw [List.nil_append, List.cons.injEq] at hcallers1
          obtain ⟨rfl, hrest⟩ := hcallers1
          obtain ⟨turn', hturn', hindex'⟩ := hgoes (by rintro ⟨⟩)
          obtain ⟨hslots, hnum, -⟩ := held_frame hframe
          refine .running hf'' hsame hturn' hindex' ?_ ?_ ⟨?_, fun i hi => ?_⟩
          · rw [hcallers', ← hrest, hdepth]
          · intro r hr
            rw [hb, hkeeps.get_restoredRegs _ hr]
          · rw [hnum, hframe1]
            exact hlocals.numLocals
          · rw [hslots, hframe1]
            exact hlocals.slots i hi
  | @parked f' hf' hsame hidle hdepth hkeeps hlocals =>
    rcases hsteps.carries hf' hplace with hsome | ⟨f'', hf'', hsame', hcarries⟩
    · exact .stopped hsome
    have hsame := hsame.trans hsame'
    cases hcarries with
    | rests hcallers hframe _ hidle' =>
      exact .parked hf'' hsame hidle' (by rw [hcallers, hdepth]) (hframe ▸ hkeeps) (hframe ▸ hlocals)
    | runs hturn hindex => exact (hidle _ hturn hindex).elim
    | goesOn _ hturn hindex hcallers hframe hregs =>
      refine .running hf'' hsame hturn hindex (by rw [hcallers, hdepth]) (fun r hr => ?_) ⟨?_, fun i hi => ?_⟩
      · rw [hregs, hkeeps.get_restoredRegs _ hr]
      · rw [hframe]
        exact hlocals.numLocals
      · rw [hframe]
        exact hlocals.slots i hi
  | @running f' turn hf' hsame hturn hindex hdepth hregs hlocals =>
    -- it has no words left, and is removed
    rcases hsteps.carries hf' hplace with hsome | ⟨f'', hf'', -, hcarries⟩
    · exact .stopped hsome
    cases hcarries with
    | rests _ _ hother => exact (hother turn hturn hindex).elim
    | @runs turn' _ _ _ hturn' hindex' hleft =>
      rw [runsAt_iff.2 ⟨⟨turn', hturn', hindex', hleft⟩, f', hf', hdepth⟩] at hnot
      cases hnot
    | goesOn hidle => rw [hturn] at hidle; cases hidle

theorem Held.idle (h : Held f set regs a j) (hturn : a.turn = none) (hturn' : b.turn = none)
    (hfibers : b.machine.fibers = a.machine.fibers) (hpanic : b.machine.panic = a.machine.panic) :
    Held f set regs b j := by
  cases h with
  | stopped hsome => exact .stopped (hpanic ▸ hsome)
  | called hf' hsame hcallers hdepth hkeeps hlocals =>
    exact .called (hfibers ▸ hf') hsame hcallers hdepth hkeeps hlocals
  | parked hf' hsame _ hdepth hkeeps hlocals =>
    refine .parked (hfibers ▸ hf') hsame (fun turn h => ?_) hdepth hkeeps hlocals
    rw [hturn'] at h
    cases h
  | running _ _ hruns => rw [hturn] at hruns; cases hruns

theorem Held.follows (h : Held f set regs a j) (hnot : a.runsAt j f.callers.length = false) (ha : a.Fit)
    (hfollows : a.Follows b) (hplace : a.place? b j = some k) : Held f set regs b k := by
  have hrests {m : Machine} (hfibers : m.fibers.length = a.machine.fibers.length) (h : a.place? ⟨m, b.turn, b.tasks, b.stage⟩ j = some k) :
      k = j := by
    rw [place?_of_le (Nat.le_of_eq hfibers.symm), Option.some.injEq] at h
    exact h.symm
  cases hfollows with
  | next hnext =>
    have hpanic := ha.panic_of_next hnext
    exact h.steps hnot hpanic (steps_of_next hpanic hnext) hplace
  | returns hover =>
    obtain rfl := hrests rfl hplace
    exact h.idle (turn_of_isOver hover) rfl rfl rfl
  | host | call =>
    obtain rfl := hrests rfl hplace
    exact h.idle rfl rfl rfl rfl

theorem Away.after (h : a.Away j depth b k) {n : Nat}
    (hstays : ∀ i < n, (b.after i).runsAt k depth = false ∧ (b.after i).place? (b.after (i + 1)) k = some k) :
    a.Away j depth (b.after n) k := by
  induction n with
  | zero => exact h
  | succ n ih =>
    have hbefore := ih fun i hi => hstays i (Nat.lt_succ_of_lt hi)
    obtain ⟨hnot, hplace⟩ := hstays n (Nat.lt_succ_self n)
    rw [after_add] at hplace ⊢
    cases hnext : (b.after n).next? with
    | none => rwa [Moment.after, hnext, Option.getD_none, Moment.after]
    | some c =>
      rw [after_one hnext] at hplace ⊢
      exact hbefore.lasts hnot (.next hnext) hplace

theorem Away.nextCall (h : a.Away j depth b k) (hnot : b.runsAt k depth = false) (hover : b.isOver = true)
    (hpanic : b.machine.panic = none) (host : Host) (call : HostCall) :
    a.Away j depth (call.first { b.machine with overrun := none, host }) k := by
  have hreturned := h.lasts hnot (.returns hover) (place?_of_le (Nat.le_refl _))
  have hhost := hreturned.lasts rfl (.host host) rfl
  exact hhost.lasts rfl (.call (m := { b.machine with overrun := none, host }) hpanic call) rfl

theorem Away.held {c : Moment} (h : a.Away j depth c k) (ha : a.Fit) (hruns : a.runsAt j depth = true)
    (hf : a.machine.fibers[j]? = some f) (hdepth : f.callers.length = depth)
    (hsave : a.machine.nextSave? j = some set) : c.Fit ∧ Held f set a.machine.registers c k := by
  obtain ⟨⟨turn, hturn, hindex, -⟩, -⟩ := runsAt_iff.1 hruns
  induction h with
  | leaves hfollows hplace =>
    refine ⟨hfollows.fit ha, ?_⟩
    cases hfollows with
    | next hnext => exact .of_saves hf hturn hindex hsave (steps_of_next (ha.panic_of_next hnext) hnext) hplace
    | returns hover =>
      rw [turn_of_isOver hover] at hturn
      cases hturn
    | host | call => cases hturn
  | lasts _ hnot hfollows hplace ih =>
    obtain ⟨hfit, hheld⟩ := ih
    exact ⟨hfollows.fit hfit, hheld.follows (hdepth ▸ hnot) hfit hfollows hplace⟩

end Moment

namespace Machine

open Moment

variable {m : Machine} {bytes : Bytes} {host : Host} {config : Config} {random : Random}

/-- Every frame has room for what it has saved, at all times. A call or an asynchronous operation saves registers; when its
frame goes on, after whatever calls, suspensions and other fibers, the saved registers have the values that they had, and
the locals are unchanged. -/
theorem saved_registers_survive (hnew : Machine.new bytes host config random = .ok m) :
    (∀ a, Reached m a → a.machine.panic = none → ∀ f ∈ a.machine.fibers, f.Fits) ∧
    ∀ a j f set, Reached m a → a.machine.fibers[j]? = some f → a.runsAt j f.callers.length = true →
      a.machine.nextSave? j = some set → ∀ c k, a.Away j f.callers.length c k →
        c.runsAt k f.callers.length = true → ∃ f', c.machine.fibers[k]? = some f' ∧ f.Same f' ∧
          f.frame.SameLocals f'.frame ∧
          ∀ r : Reg, set.has r.val = true → c.machine.registers.get r = a.machine.registers.get r := by
  constructor
  · intro a hreached
    change a.Roomy
    induction hreached with
    | refl =>
      obtain ⟨image, -, -, rfl⟩ := Machine.eq_of_new hnew
      rintro - f ⟨⟩
    | follows hreached hfollows ih => exact hfollows.roomy (hreached.fit hnew) ih
    | reset => rintro - f ⟨⟩
  · intro a j f set hreached hf hruns hsave c k haway hruns'
    obtain ⟨hfit, hheld⟩ := haway.held (hreached.fit hnew) hruns hf rfl hsave
    obtain ⟨⟨turn', hturn', hindex', -⟩, f1, hf1, hdepth1⟩ := runsAt_iff.1 hruns'
    cases hheld with
    | stopped hpanic =>
      rw [hfit.turn_of_panic hpanic] at hturn'
      cases hturn'
    | @called f' caller inner outer hf' hsame hcallers hdepth =>
      rw [hf1, Option.some.injEq] at hf'
      subst hf'
      rw [hcallers, List.length_append, List.length_cons] at hdepth1
      omega
    | parked _ _ hidle => exact (hidle turn' hturn' hindex').elim
    | running hf' hsame _ _ _ hregs hlocals => exact ⟨_, hf', hsame, hlocals, hregs⟩

end Machine

open Script in
/-- Adds five to what a function returns, which waits for a quarter of a second. -/
def addingScript : List Stmt :=
  [.function {} { name := ⟨"f", {}⟩, params := [.ident ⟨"x", {}⟩] }
      [.expr {} (.call {} (name "wait") [.literal {} (.number 0.25)]), .ret {} (some (name "x"))],
    declare "y" (some (.literal {} (.number 5))),
    declare "z" (some (.binary {} .add (name "y") (.call {} (name "f") [.literal {} (.number 3)])))]

/-- The five is in a register while the function waits, and still there when it has returned. -/
theorem saved_registers_survive_adding : ∃ compiled m a c, compile Catalog.builtin {} addingScript = .ok compiled ∧
      Machine.new compiled.image {} {} (.ofSeed 1) = .ok m ∧ Moment.Reached m a ∧ a.runsAt 0 0 = true ∧
      a.machine.nextSave? 0 = some ⟨32768⟩ ∧ a.Away 0 0 c 0 ∧ a.machine.host.now = 0 ∧ c.machine.host.now = 300 ∧
      c.runsAt 0 0 = true ∧ c.machine.registers.get 15 = a.machine.registers.get 15 := by
  have hplays : playsTo addingScript {} [] (fun _ m => m.panic = none ∧
      let a := (HostCall.start.first m).after 12
      a.machine.nextSave? 0 = some ⟨32768⟩ ∧ a.runsAt 0 0 = true ∧ a.machine.host.now = 0 ∧
      (a.machine.fibers[0]?.any (·.callers.length = 0)) = true ∧
      (a.next?.any fun b => a.place? b 0 == some 0 &&
        ((List.range 6).all fun i => !(b.after i).runsAt 0 0 && (b.after i).place? (b.after (i + 1)) 0 == some 0) &&
        (b.after 5).isOver && (b.after 5).machine.panic.isNone &&
        let e := (b.after 5).machine
        let later := HostCall.tick.first { e with overrun := none, host := { e.host with now := 300 } }
        ((List.range 10).all fun i =>
          !(later.after i).runsAt 0 0 && (later.after i).place? (later.after (i + 1)) 0 == some 0) &&
        (later.after 10).runsAt 0 0 && (later.after 10).machine.host.now == 300) = true) = true := by
    decide +kernel
  obtain ⟨compiled, m, record, m', hcompile, hnew, hrecorded, hcheck⟩ := exists_of_playsTo hplays
  obtain ⟨hpanic, hsave, hruns, hnow, hfiber, hnext⟩ := of_decide_eq_true hcheck
  obtain ⟨f, hf, hdepth⟩ := (Option.any_eq_true _ _).1 hfiber
  obtain ⟨b, hnext, hrest⟩ := (Option.any_eq_true _ _).1 hnext
  simp only [Bool.and_eq_true, Option.isNone_iff_eq_none, List.all_eq_true, List.mem_range, Bool.not_eq_true',
    beq_iff_eq] at hrest
  obtain ⟨⟨⟨⟨hplace, hstays⟩, hover⟩, hpanic'⟩, ⟨hlater, hruns'⟩, hnow'⟩ := hrest
  rw [decide_eq_true_eq] at hdepth
  have hreached := ((Moment.reached_of_recorded hrecorded).follows (.call hpanic .start)).comesTo ⟨12, rfl⟩
  -- the function waits until the call returns, and goes on with the next one
  have haway : ((HostCall.start.first m').after 12).Away 0 0 (b.after 5) 0 :=
    (Moment.Away.leaves (.next hnext) hplace).after fun i hi => hstays i (Nat.lt_succ_of_lt hi)
  have haway' := (haway.nextCall (hstays 5 (by decide)).1 hover hpanic' { (b.after 5).machine.host with now := 300 }
    .tick).after hlater
  obtain ⟨f', -, -, -, hregs⟩ := (Machine.saved_registers_survive hnew).2 _ 0 f _ hreached hf (by rwa [hdepth]) hsave _ 0
    (by rw [hdepth]; exact haway') (by rw [hdepth]; exact hruns')
  exact ⟨compiled, m, _, _, hcompile, hnew, hreached, hruns, hsave, haway', hnow, hnow', hruns', hregs 15 (by decide)⟩

end BusScript
