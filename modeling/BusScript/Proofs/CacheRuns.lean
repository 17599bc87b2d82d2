import Mathlib.Data.List.Nodup
import BusScript.Proofs.CacheEffects

namespace BusScript.RegisterCache

open CachedRegister

/-- Some live entries, in their order, each of which was used later than every live entry that is not among them. -/
structure MostRecent (kept entries : List CachedRegister) : Prop where
  order : kept.Sublist (entries.filter isLive)
  recent : ∀ e ∈ kept, ∀ e' ∈ entries.filter isLive, e' ∉ kept → e'.lastAccess < e.lastAccess

theorem filter_isLive_kill (stamp : Nat) (entries : List CachedRegister) :
    (entries.map fun e => if e.lastAccess ≤ stamp then e.kill else e).filter isLive =
      (entries.filter isLive).filter fun e => stamp < e.lastAccess := by
  induction entries with
  | nil => rfl
  | cons e rest ih =>
    rw [List.map_cons]
    by_cases hold : e.lastAccess ≤ stamp
    · have hdead : isLive e.kill = false := rfl
      grind
    · grind

theorem map_lastAccess_kill (stamp : Nat) (entries : List CachedRegister) :
    (entries.map fun e => if e.lastAccess ≤ stamp then e.kill else e).map (·.lastAccess) =
      entries.map (·.lastAccess) := by
  rw [List.map_map]
  refine List.map_congr_left fun e _ => ?_
  rw [Function.comp_apply]
  split <;> rfl

variable {entries : List CachedRegister}

variable {stamp target : Nat} {e : CachedRegister}

theorem oldest?_eq_some (h : oldest? entries = some stamp) :
    (∃ e ∈ entries.filter isLive, e.lastAccess = stamp) ∧ ∀ e ∈ entries.filter isLive, stamp ≤ e.lastAccess := by
  obtain ⟨hmem, hle⟩ := List.min?_eq_some_iff.1 h
  grind

theorem oldest?_ne_none (h : 0 < entries.countP isLive) : oldest? entries ≠ none := by
  intro hnone
  rw [oldest?, List.min?_eq_none_iff, List.map_eq_nil_iff] at hnone
  rw [List.countP_eq_length_filter, hnone] at h
  exact absurd h (by decide)

theorem countP_kill_lt (h : oldest? entries = some stamp) :
    (entries.map fun e => if e.lastAccess ≤ stamp then e.kill else e).countP isLive < entries.countP isLive := by
  obtain ⟨⟨e, hmem, rfl⟩, -⟩ := oldest?_eq_some h
  rw [List.countP_eq_length_filter, List.countP_eq_length_filter, filter_isLive_kill]
  refine List.length_filter_lt_length_iff_exists.2 ⟨e, hmem, ?_⟩
  simp

theorem killOldest_of_le (h : entries.countP isLive ≤ target)
    (rounds : Nat) : killOldest target rounds entries = entries := by
  cases rounds with
  | zero => rfl
  | succ rounds => rw [killOldest, if_pos h]

/-- There are enough rounds if there are as many as live entries: then few enough are left, and more rounds make no
difference. -/
theorem killOldest_rounds {rounds rounds' : Nat}
    (h : entries.countP isLive ≤ rounds) (h' : entries.countP isLive ≤ rounds') :
    killOldest target rounds entries = killOldest target rounds' entries ∧
      (killOldest target rounds entries).countP isLive ≤ target := by
  induction rounds' generalizing rounds entries with
  | zero =>
    have hfew : entries.countP isLive ≤ target := Nat.le_trans h' (Nat.zero_le _)
    rw [killOldest_of_le hfew]
    exact ⟨rfl, hfew⟩
  | succ rounds' ih =>
    by_cases hfew : entries.countP isLive ≤ target
    · rw [killOldest_of_le hfew, killOldest_of_le hfew]
      exact ⟨rfl, hfew⟩
    · have hsome : 0 < entries.countP isLive := Nat.lt_of_le_of_lt (Nat.zero_le _) (Nat.lt_of_not_le hfew)
      obtain ⟨rounds, rfl⟩ := Nat.exists_eq_succ_of_ne_zero (Nat.ne_of_gt (Nat.lt_of_lt_of_le hsome h))
      rw [killOldest, killOldest, if_neg hfew]
      cases hold : oldest? entries with
      | none => exact absurd hold (oldest?_ne_none hsome)
      | some stamp =>
        have hlt := countP_kill_lt hold
        grind

theorem length_filter_stamps {live : List CachedRegister} (hnodup : (live.map (·.lastAccess)).Nodup)
    (hmem : ∃ e ∈ live, e.lastAccess = stamp) (hleast : ∀ e ∈ live, stamp ≤ e.lastAccess) :
    (live.filter fun e => stamp < e.lastAccess).length + 1 = live.length := by
  have hcount : (live.map (·.lastAccess)).count stamp = 1 := by simp_all
  have hother : live.countP (fun e => decide (e.lastAccess ≤ stamp)) = 1 := by
    rw [← hcount, List.count, List.countP_map]
    refine List.countP_congr fun e he => ?_
    grind
  have hsplit := List.length_eq_countP_add_countP (fun e : CachedRegister => decide (stamp < e.lastAccess)) (l := live)
  grind

theorem mostRecent_killOldest {rounds : Nat}
    (hnodup : (entries.map (·.lastAccess)).Nodup) (hrounds : entries.countP isLive ≤ rounds) :
    MostRecent ((killOldest target rounds entries).filter isLive) entries ∧
      ((killOldest target rounds entries).filter isLive).length = min (entries.countP isLive) target := by
  induction rounds generalizing entries with
  | zero =>
    have hnone : entries.filter isLive = [] := by simp_all
    rw [killOldest, List.countP_eq_length_filter, hnone]
    exact ⟨⟨List.nil_sublist _, fun _ he => (List.not_mem_nil he).elim⟩, (Nat.zero_min _).symm⟩
  | succ rounds ih =>
    by_cases hfew : entries.countP isLive ≤ target
    · rw [killOldest_of_le hfew, ← List.countP_eq_length_filter, Nat.min_eq_left hfew]
      exact ⟨⟨.refl _, fun _ _ _ hmem hnot => absurd hmem hnot⟩, rfl⟩
    · have hsome : 0 < entries.countP isLive := Nat.lt_of_le_of_lt (Nat.zero_le _) (Nat.lt_of_not_le hfew)
      rw [killOldest, if_neg hfew]
      cases hold : oldest? entries with
      | none => exact absurd hold (oldest?_ne_none hsome)
      | some stamp =>
        obtain ⟨hmem, hleast⟩ := oldest?_eq_some hold
        have hone := length_filter_stamps ((List.filter_sublist.map _).nodup hnodup) hmem hleast
        rw [← filter_isLive_kill, ← List.countP_eq_length_filter, ← List.countP_eq_length_filter] at hone
        obtain ⟨⟨horder, hrecent⟩, hlength⟩ := @ih (entries.map fun e => if e.lastAccess ≤ stamp then e.kill else e)
          (by rw [map_lastAccess_kill]; exact hnodup) (by omega)
        rw [filter_isLive_kill] at horder hrecent
        refine ⟨⟨horder.trans List.filter_sublist, fun e he e' he' hnot => ?_⟩, hlength.trans (by omega)⟩
        -- An entry that is killed in this round is older than all that outlive it.
        by_cases hlater : stamp < e'.lastAccess
        · exact hrecent e he e' (List.mem_filter.2 ⟨he', decide_eq_true hlater⟩) hnot
        · have hkept := (List.mem_filter.1 (horder.subset he)).2
          exact Nat.lt_of_le_of_lt (Nat.le_of_not_lt hlater) (of_decide_eq_true hkept)

inductive Op
  | add (r : CachedRegister)
  | lookup (role : Nat) (code : CommandCode) (argument : Option Bytes) (now validity : Nat)
  | invalidate (role : Nat) (code : CommandCode)
  | detach (role : Nat)
  | update (role : Nat) (p : Packet) (now : Nat)

namespace Op

def apply (c : RegisterCache) : Op → RegisterCache
  | .add r => c.add r
  | .lookup role code argument now validity => (c.lookup role code argument now validity).2
  | .invalidate role code => c.invalidate role code
  | .detach role => c.detach role
  | .update role p now => c.update role p now

def evicts (c : RegisterCache) : Op → Bool
  | .add _ => decide (c.capacity ≤ c.entries.length)
  | _ => false

end Op

/-- What a row of operations makes of an empty cache. -/
def after (capacity : Nat) (ops : List Op) : RegisterCache := ops.foldl Op.apply (.new capacity)

/-- Room for one entry at least, no more entries than there is room for, and stamps of accesses that differ. -/
structure Stamped (c : RegisterCache) : Prop where
  room : 1 ≤ c.capacity
  length_le : c.entries.length ≤ c.capacity
  nodup : (c.entries.map (·.lastAccess)).Nodup
  lt : ∀ e ∈ c.entries, e.lastAccess < c.accesses

variable {c : RegisterCache}

theorem add_of_room (h : ¬ c.capacity ≤ c.entries.length) (r : CachedRegister) : c.add r = { c with
      entries := c.entries ++ [{ r with lastAccess := c.accesses }]
      accesses := c.accesses + 1 } := by
  rw [add, if_neg h]

theorem add_of_full (h : c.capacity ≤ c.entries.length) (r : CachedRegister) : c.add r = { c with
      entries := c.evict.entries ++ [{ r with lastAccess := c.accesses }]
      accesses := c.accesses + 1 } := by
  rw [add, if_pos h]
  rfl

namespace Stamped

theorem mostRecent_evict (h : c.Stamped) :
    MostRecent c.evict.entries c.entries ∧ c.evict.entries.length = min c.liveCount (c.capacity / 2) :=
  mostRecent_killOldest h.nodup List.countP_le_length

theorem push (h : c.Stamped) {kept : List CachedRegister} (hkept : kept.Sublist c.entries)
    (hroom : kept.length < c.capacity) (r : CachedRegister) :
    Stamped { c with
      entries := kept ++ [{ r with lastAccess := c.accesses }]
      accesses := c.accesses + 1 } := by
  refine ⟨h.room, ?_, ?_, fun e he => ?_⟩
  · rw [List.length_append]
    exact hroom
  · rw [List.map_append, List.nodup_append]
    refine ⟨(hkept.map _).nodup h.nodup, List.nodup_singleton _, fun stamp hstamp stamp' hstamp' => ?_⟩
    obtain ⟨e, he, rfl⟩ := List.mem_map.1 hstamp
    rw [List.mem_singleton.1 hstamp']
    exact Nat.ne_of_lt (h.lt e (hkept.subset he))
  · rcases List.mem_append.1 he with he | he
    · exact Nat.lt_succ_of_lt (h.lt e (hkept.subset he))
    · simp_all

theorem add (h : c.Stamped) (r : CachedRegister) : (c.add r).Stamped := by
  by_cases hfull : c.capacity ≤ c.entries.length
  · obtain ⟨hrecent, hlength⟩ := h.mostRecent_evict
    rw [add_of_full hfull]
    refine h.push (hrecent.order.trans List.filter_sublist) ?_ r
    have hroom := h.room
    omega
  · rw [add_of_room hfull]
    exact h.push (.refl _) (Nat.lt_of_not_le hfull) r

theorem restamp (h : c.Stamped)
    (hstamps : entries.map (·.lastAccess) = c.entries.map (·.lastAccess)) : Stamped { c with entries } := by
  have hlength : entries.length = c.entries.length := by
    simpa using congrArg List.length hstamps
  refine ⟨h.room, hlength ▸ h.length_le, hstamps ▸ h.nodup, fun e he => ?_⟩
  have hmem : e.lastAccess ∈ c.entries.map (·.lastAccess) := hstamps ▸ List.mem_map.2 ⟨e, he, rfl⟩
  obtain ⟨e', he', heq⟩ := List.mem_map.1 hmem
  exact heq ▸ h.lt e' he'

theorem map (h : c.Stamped) {g : CachedRegister → CachedRegister} (hg : ∀ e, (g e).lastAccess = e.lastAccess) :
    Stamped { c with entries := c.entries.map g } := by
  refine h.restamp ?_
  simp_all

theorem modify_kill (h : c.Stamped) (index : Nat) : (c.modify index kill).Stamped := by
  refine h.restamp (List.ext_getElem? fun i => ?_)
  rw [List.getElem?_map, List.getElem?_modify, List.getElem?_map]
  cases c.entries[i]? with
  | none => rfl
  | some e =>
    change some (if index = i then e.kill else e).lastAccess = _
    split <;> rfl

theorem hit (h : c.Stamped) {index : Nat} {e : CachedRegister} (he : c.entries[index]? = some e) :
    Stamped { c.modify index fun _ => { e with lastAccess := c.accesses } with accesses := c.accesses + 1 } := by
  have hset : (c.modify index fun _ => { e with lastAccess := c.accesses }).entries =
      c.entries.set index { e with lastAccess := c.accesses } := by
    rw [modify, List.modify_eq_set_getElem?, he]
    rfl
  refine ⟨h.room, ?_, ?_, fun e' he' => ?_⟩
  · rw [hset, List.length_set]
    exact h.length_le
  · rw [hset, List.map_set]
    refine h.nodup.set fun hmem => ?_
    obtain ⟨e', he', hstamp⟩ := List.mem_map.1 hmem
    exact Nat.ne_of_lt (h.lt e' he') hstamp
  · rw [hset] at he'
    rcases List.mem_or_eq_of_mem_set he' with hold | rfl
    · exact Nat.lt_succ_of_lt (h.lt e' hold)
    · exact Nat.lt_succ_self _

end Stamped

theorem lookup_cases (role : Nat) (code : CommandCode) (argument : Option Bytes) (now validity : Nat) :
    c.lookup role code argument now validity = (none, c) ∨ ∃ index e, c.entries[index]? = some e ∧ e.isDead = false ∧
        (c.lookup role code argument now validity = (none, c.modify index kill) ∨
          c.lookup role code argument now validity = (some { e with lastAccess := c.accesses },
              { c.modify index fun _ => { e with lastAccess := c.accesses } with accesses := c.accesses + 1 })) := by
  rw [lookup]
  cases hindex : c.findIdx? role code argument with
  | none => exact .inl rfl
  | some index =>
    obtain ⟨hlt, hfor, -⟩ := List.findIdx?_eq_some_iff_getElem.1 hindex
    rw [isFor, isLive, Bool.and_eq_true, Bool.and_eq_true, Bool.and_eq_true, Bool.not_eq_true'] at hfor
    grind

theorem invalidate_cases (role : Nat) (code : CommandCode) :
    c.invalidate role code = c ∨ ∃ index, c.invalidate role code = c.modify index kill := by
  rw [invalidate]
  split
  · exact .inr ⟨_, rfl⟩
  · exact .inl rfl

theorem lastAccess_update?_getD (e : CachedRegister) (role : Nat) (p : Packet) (now : Nat) :
    ((e.update? role p now).getD e).lastAccess = e.lastAccess := by
  rw [update?]
  split
  · rfl
  · cases answer? e.argument p.data <;> rfl

theorem Stamped.apply (h : c.Stamped) (op : Op) : (op.apply c).Stamped := by
  cases op with
  | add r => exact h.add r
  | lookup role code argument now validity =>
    rw [Op.apply]
    rcases @lookup_cases c role code argument now validity with hnone | ⟨index, e, he, -, hkill | hhit⟩
    · rw [hnone]
      exact h
    · rw [hkill]
      exact h.modify_kill index
    · rw [hhit]
      exact h.hit he
  | invalidate role code =>
    rw [Op.apply]
    rcases @invalidate_cases c role code with hnone | ⟨index, hkill⟩
    · rw [hnone]
      exact h
    · rw [hkill]
      exact h.modify_kill index
  | detach role => exact h.map fun e => by split <;> rfl
  | update role p now => exact h.map fun e => lastAccess_update?_getD e role p now

theorem capacity_apply (op : Op) : (op.apply c).capacity = c.capacity := by
  cases op with
  | add r =>
    rw [Op.apply]
    by_cases hfull : c.capacity ≤ c.entries.length
    · rw [add_of_full hfull]
    · rw [add_of_room hfull]
  | lookup role code argument now validity =>
    rw [Op.apply]
    rcases @lookup_cases c role code argument now validity with heq | ⟨_, _, -, -, heq | heq⟩ <;> rw [heq]
    · rfl
    · rfl
  | invalidate role code =>
    rw [Op.apply]
    rcases @invalidate_cases c role code with heq | ⟨_, heq⟩ <;> rw [heq]
    rfl
  | detach role => rfl
  | update role p now => rfl

theorem Stamped.foldl (h : c.Stamped) (ops : List Op) :
    (ops.foldl Op.apply c).Stamped ∧ (ops.foldl Op.apply c).capacity = c.capacity := by
  induction ops generalizing c with
  | nil => exact ⟨h, rfl⟩
  | cons op rest ih =>
    obtain ⟨hrest, hcapacity⟩ := ih (h.apply op)
    exact ⟨hrest, hcapacity.trans (capacity_apply op)⟩

theorem stamped_new (capacity : Nat) : (new capacity).Stamped :=
  ⟨Nat.le_max_right .., Nat.zero_le _, List.nodup_nil, nofun⟩

theorem kill_eq_self (h : e.isDead = true) : e.kill = e := by
  rw [kill, ← h]

theorem getElem?_modify_kill {index i : Nat} (he : c.entries[i]? = some e)
    (hdead : e.isDead = true) : (c.modify index kill).entries[i]? = some e := by
  rw [modify, List.getElem?_modify, he]
  change some (if index = i then e.kill else e) = _
  rw [kill_eq_self hdead, ite_self]

theorem Op.getElem?_apply {op : Op} (hroom : op.evicts c = false) {i : Nat}
    (he : c.entries[i]? = some e) (hdead : e.isDead = true) : (op.apply c).entries[i]? = some e := by
  cases op with
  | add r =>
    rw [Op.apply, add_of_room (of_decide_eq_false hroom), List.getElem?_append_left (List.getElem?_eq_some_iff.1 he).1, he]
  | lookup role code argument now validity =>
    rw [Op.apply]
    rcases @lookup_cases c role code argument now validity with hnone | ⟨index, e', he', hlive, hkill | hhit⟩
    · rw [hnone, he]
    · rw [hkill]
      exact getElem?_modify_kill he hdead
    · have hne : index ≠ i := by grind
      rw [hhit]
      change (c.entries.modify index _)[i]? = _
      simp_all
  | invalidate role code =>
    rw [Op.apply]
    rcases @invalidate_cases c role code with hnone | ⟨index, hkill⟩
    · rw [hnone, he]
    · rw [hkill]
      exact getElem?_modify_kill he hdead
  | detach role =>
    change (c.entries.map _)[i]? = _
    rw [List.getElem?_map, he, Option.map_some, kill_eq_self hdead, ite_self]
  | update role p now =>
    change (c.entries.map _)[i]? = _
    have hnone : e.update? role p now = none := by rw [update?, hdead]; rfl
    rw [List.getElem?_map, he, Option.map_some, hnone, Option.getD_none]

/-- After any row of operations: there are at most as many entries as there is room for, with stamps that differ and
are below the count of accesses. A full cache that takes an entry comes to an end with giving up others, and keeps the
live entries that were used last, as many as half of its capacity. What a look-up finds was live, and what is dead
stays as it is until it is forgotten. -/
theorem full_caches_keep_the_most_recent (capacity : Nat) (ops : List Op) :
    let c := after capacity ops
    c.entries.length ≤ max capacity 1 ∧ (c.entries.map (·.lastAccess)).Nodup ∧
    (∀ e ∈ c.entries, e.lastAccess < c.accesses) ∧
    (∀ r, max capacity 1 ≤ c.entries.length → (∀ rounds ≥ c.entries.length,
        killOldest (capacity / 2) rounds c.entries = killOldest (capacity / 2) c.entries.length c.entries ∧
        (killOldest (capacity / 2) rounds c.entries).countP isLive ≤ capacity / 2) ∧
      ∃ kept, ((Op.add r).apply c).entries = kept ++ [{ r with lastAccess := c.accesses }] ∧
        MostRecent kept c.entries ∧ kept.length = min c.liveCount (capacity / 2)) ∧
    (∀ role code argument now validity hit, (c.lookup role code argument now validity).1 = some hit →
      ∃ (i : Nat) (e : CachedRegister), c.entries[i]? = some e ∧ e.isDead = false ∧ hit = { e with lastAccess := c.accesses }) ∧
    ∀ (op : Op) (i : Nat) (e : CachedRegister), op.evicts c = false → c.entries[i]? = some e → e.isDead = true →
      (op.apply c).entries[i]? = some e := by
  intro c
  obtain ⟨hstamped, hcapacity⟩ : c.Stamped ∧ c.capacity = max capacity 1 := (stamped_new capacity).foldl ops
  have hhalf : c.capacity / 2 = capacity / 2 := by omega
  refine ⟨hcapacity ▸ hstamped.length_le, hstamped.nodup, hstamped.lt, fun r hfull => ⟨fun rounds hrounds => ?_, ?_⟩,
    fun role code argument now validity hit hhit => ?_, fun op i e hroom he hdead => op.getElem?_apply hroom he hdead⟩
  · exact killOldest_rounds (Nat.le_trans List.countP_le_length hrounds) List.countP_le_length
  · rw [← hcapacity] at hfull
    refine ⟨c.evict.entries, ?_, ?_⟩
    · rw [Op.apply, add_of_full hfull]
    · rw [← hhalf]
      exact hstamped.mostRecent_evict
  · rcases @lookup_cases c role code argument now validity with hnone | ⟨index, e, he, hlive, hkill | hfound⟩
    · rw [hnone] at hhit
      cases hhit
    · rw [hkill] at hhit
      cases hhit
    · rw [hfound] at hhit
      cases hhit
      exact ⟨index, e, he, hlive, rfl⟩

/-- A full cache with room for three: the first entry was used again, and the second one is dead. -/
theorem full_caches_keep_the_most_recent_of_three :
    let ops : List Op := [.add { role := 0, code := 257 }, .add { role := 1, code := 257 },
      .add { role := 2, code := 257 }, .lookup 0 257 none 0 100, .detach 1]
    (after 3 ops).entries.map (fun e => (e.role, e.lastAccess, e.isDead)) = [(0, 3, false), (1, 1, true), (2, 2, false)] ∧
      ((Op.add { role := 3, code := 257 }).apply (after 3 ops)).entries.map (fun e => (e.role, e.lastAccess)) =
        [(0, 3), (3, 4)] ∧
      ∃ kept, ((Op.add { role := 3, code := 257 }).apply (after 3 ops)).entries =
          kept ++ [{ role := 3, code := 257, lastAccess := 4 }] ∧
        MostRecent kept (after 3 ops).entries ∧ kept.length = 1 := by
  intro ops
  refine ⟨by decide, by decide, ?_⟩
  exact ((full_caches_keep_the_most_recent 3 ops).2.2.2.1 { role := 3, code := 257 } (by decide)).2

end BusScript.RegisterCache
