import Konix.Kernel.Schedule

set_option autoImplicit false

namespace Konix.Kernel

def hz : Int := 100

def nextTick (ticks : Int) : Int := if ticks + 1 ≥ maxTicks then 0 else ticks + 1

def ticksAfter (t : Int) : Nat → Int
  | 0 => t
  | k + 1 => nextTick (ticksAfter t k)

-- `(get_ticks() - t) * 1000 / HZ`
def elapsed (now t : Int) : Int := (i32 (u32 (i32 (u32 (now - t)) * 1000))).tdiv hz

/--
A loop that polls until it has waited long enough or is told to stop, from its `i`-th turn on: the
turn in which it ended, and whether it was told to.
-/
def pollFrom (waits ready : Nat → Bool) : Nat → Nat → Option (Nat × Bool)
  | 0, _ => none
  | fuel + 1, i =>
    if waits i then if ready i then some (i, true) else pollFrom waits ready fuel (i + 1)
    else some (i, false)

-- `milli_delay()`, to which the calls of `get_ticks()` answer `readings`, the first one with `t`.
def milliDelay (readings : Nat → Int) (milliSec : Int) (fuel : Nat) : Option (Nat × Bool) :=
  pollFrom (fun i => elapsed (readings i) (readings 0) < milliSec) (fun _ => false) fuel 1

-- `waitfor()`, with the bytes of the status register.
def waitfor (readings : Nat → Int) (status : Nat → UInt8) (mask val timeout : Int) (fuel : Nat) :
    Option (Nat × Bool) :=
  pollFrom (fun i => elapsed (readings i) (readings 0) < timeout)
    (fun i => i32 ((status i).toNat &&& u32 mask) = val) fuel 1

-- How many ticks have passed at each call of `get_ticks()`: the loop sees every one of them.
structure Polls where
  passed : Nat → Nat
  start : passed 0 = 0
  forward : ∀ i, passed i ≤ passed (i + 1)
  each : ∀ i, passed (i + 1) ≤ passed i + 1
  goesOn : ∀ n, ∃ i, n ≤ passed i

namespace Polls

def readings (p : Polls) (t : Int) (i : Nat) : Int := ticksAfter t (p.passed i)

-- The loop ended in turn `i`: not before `n` ticks had passed unless it was told to, and not later.
structure OnTime (p : Polls) (n i : Nat) (told : Bool) : Prop where
  before : ∀ j, 0 < j → j < i → p.passed j < n
  timeout : told = false ↔ n ≤ p.passed i

variable (p : Polls)

theorem visits {k i : Nat} (reached : k ≤ p.passed i) : ∃ j, j ≤ i ∧ p.passed j = k := by
  induction i with
  | zero =>
    rw [p.start] at reached
    exact ⟨0, le_refl 0, by rw [p.start]; omega⟩
  | succ i ih =>
    by_cases earlier : k ≤ p.passed i
    next =>
      obtain ⟨j, inside, same⟩ := ih earlier
      exact ⟨j, Nat.le_succ_of_le inside, same⟩
    next =>
      have step := p.each i
      exact ⟨i + 1, le_refl _, by omega⟩

theorem first (n : Nat) :
    ∃ i, 0 < i ∧ n ≤ p.passed i ∧ ∀ j, 0 < j → j < i → p.passed j < n := by
  have someTurn : ∃ i, 0 < i ∧ n ≤ p.passed i := by
    obtain ⟨i, reached⟩ := p.goesOn n
    exact ⟨i + 1, Nat.succ_pos i, le_trans reached (p.forward i)⟩
  classical
  refine ⟨Nat.find someTurn, (Nat.find_spec someTurn).1, (Nat.find_spec someTurn).2, ?_⟩
  intro j positive earlier
  by_contra late
  exact Nat.find_min someTurn earlier ⟨positive, not_lt.mp late⟩

end Polls

section

variable {waits ready : Nat → Bool}

theorem pollFrom_ends {last i : Nat} (inside : i ≤ last) (before : ∀ j, i ≤ j → j < last → waits j)
    (stops : waits last = false) :
    ∃ r, pollFrom waits ready (last + 1 - i) i = some r ∧ i ≤ r.1 ∧
      (r.2 = true ∧ r.1 < last ∨ r.2 = false ∧ r.1 = last) := by
  obtain ⟨d, rfl⟩ := Nat.exists_eq_add_of_le inside
  induction d generalizing i with
  | zero =>
    rw [Nat.add_zero] at stops ⊢
    have fuel : i + 1 - i = 0 + 1 := by omega
    refine ⟨(i, false), ?_, le_refl i, Or.inr ⟨rfl, rfl⟩⟩
    rw [fuel, pollFrom, stops]
    rfl
  | succ d ih =>
    have fuel : i + (d + 1) + 1 - i = (i + 1 + d) + 1 - (i + 1) + 1 := by omega
    have moved : i + (d + 1) = i + 1 + d := by omega
    rw [fuel, pollFrom, if_pos (before i (le_refl i) (by omega))]
    cases told : ready i with
    | true => exact ⟨(i, true), rfl, le_refl i, Or.inl ⟨rfl, by omega⟩⟩
    | false =>
      rw [moved] at before stops ⊢
      obtain ⟨r, done, later, ends⟩ := ih (by omega)
        (fun j above below => before j (by omega) below) stops
      exact ⟨r, done, by omega, ends⟩

theorem pollFrom_waited {fuel i j : Nat} {told : Bool}
    (done : pollFrom waits (fun _ => false) fuel i = some (j, told)) :
    told = false ∧ waits j = false ∧ ∀ k, i ≤ k → k < j → waits k = true := by
  induction fuel generalizing i with
  | zero => cases done
  | succ fuel ih =>
    rw [pollFrom] at done
    cases wait : waits i with
    | true =>
      rw [wait] at done
      obtain ⟨notTold, stops, waited⟩ := ih done
      refine ⟨notTold, stops, ?_⟩
      intro k above below
      rcases Nat.eq_or_lt_of_le above with rfl | later
      · exact wait
      · exact waited k later below
    | false =>
      rw [wait] at done
      cases done
      exact ⟨rfl, wait, fun k above below => absurd above (not_le.mpr below)⟩

end

section

-- Milliseconds times `HZ` per second, rounded up.
def ticksFor (milliSec : Int) : Nat := ((milliSec * hz + 999) / 1000).toNat

def product (d : Int) : Int := i32 (u32 (i32 (u32 d) * 1000))

def WaitsAt (t milliSec : Int) (k : Nat) : Prop := elapsed (ticksAfter t k) t < milliSec

variable {t milliSec : Int} {k n : Nat}

theorem ticksAfter_eq (bound : t < maxTicks) (once : k ≤ 214748365) (nonneg : 0 ≤ t) :
    ticksAfter t k = if t + k < maxTicks then t + k else t + k - maxTicks := by
  unfold maxTicks at *
  induction k with
  | zero =>
    rw [ticksAfter, Nat.cast_zero, add_zero, if_pos bound]
  | succ k ih =>
    rw [ticksAfter, ih (by omega), nextTick]
    unfold maxTicks
    split <;> split <;> split <;> omega

theorem waitsAt_product (positive : 0 < milliSec) (nonneg : 0 ≤ t) (bound : t < maxTicks)
    (once : k ≤ 214748365) :
    WaitsAt t milliSec k ↔
      product (if t + k < maxTicks then k else k - maxTicks) < milliSec * 100 := by
  have difference : ticksAfter t k - t = if t + k < maxTicks then (k : Int) else k - maxTicks := by
    rw [ticksAfter_eq bound once nonneg]
    split <;> ring
  rw [WaitsAt, elapsed, difference, product, hz]
  generalize i32 (u32 (i32 (u32 _) * 1000)) = x
  rcases lt_or_ge x 0 with negative | natural
  · have below : x.tdiv 100 ≤ (0 : Int).tdiv 100 := Int.tdiv_le_tdiv (by decide) negative.le
    rw [Int.zero_tdiv] at below
    exact iff_of_true (by omega) (by omega)
  · rw [Int.tdiv_eq_ediv_of_nonneg natural]
    omega

theorem product_eq {d x : Int} (m : Int) (low : -2147483648 ≤ d) (high : d < 2147483648)
    (wraps : d * 1000 = x + 4294967296 * m) (low' : -2147483648 ≤ x) (high' : x < 2147483648) :
    product d = x := by
  rw [product, i32_u32_of_bounds low high, wraps, i32_u32_add, i32_u32_of_bounds low' high']

theorem product_before (small : k ≤ 2147483) : product k = k * 1000 :=
  product_eq 0 (by omega) (by omega) (by ring) (by omega) (by omega)

-- After a reset the product is too large, by the part of `MAX_TICKS * 1000` that is lost.
theorem product_after (small : k ≤ 2125928) : product (k - maxTicks) = k * 1000 + 21555000 := by
  unfold maxTicks
  exact product_eq (-500) (by omega) (by omega) (by ring) (by omega) (by omega)

theorem product_after_wrapped (large : 2125929 ≤ k) (small : k ≤ 2147484) :
    product (k - maxTicks) < 0 := by
  have value : product (k - maxTicks) = k * 1000 + 21555000 - 4294967296 := by
    unfold maxTicks
    exact product_eq (-499) (by omega) (by omega) (by ring) (by omega) (by omega)
  omega

theorem product_unreached {d : Int} (large : 2147484 < n) (late : 10 * (n : Int) < milliSec + 10) :
    product d < milliSec * 100 := by
  have range := i32_range (u32 (i32 (u32 d) * 1000))
  rw [product]
  omega

def Exact (t : Int) (n : Nat) : Prop :=
  t + n < maxTicks ∧ n ≤ 2147483 ∨ t + n = maxTicks ∧ n ≤ 2125928

-- The test of the loop turns false after `n` ticks and not before.
def TurnsAt (t milliSec : Int) (n : Nat) : Prop :=
  ¬ WaitsAt t milliSec n ∧ ∀ k, 0 < k → k < n → WaitsAt t milliSec k

theorem turnsAt_iff (positive : 0 < milliSec) (nonneg : 0 ≤ t) (bound : t < maxTicks)
    (once : n ≤ 214748365) (late : 10 * (n : Int) < milliSec + 10)
    (early : milliSec ≤ 10 * (n : Int)) : TurnsAt t milliSec n ↔ Exact t n := by
  have test (k : Nat) (inside : k ≤ n) :=
    waitsAt_product positive nonneg bound (le_trans inside once)
  constructor
  next =>
    rintro ⟨stops, waits⟩
    rw [test n (le_refl n), not_lt] at stops
    have reached : n ≤ 2147484 := by
      by_contra large
      exact absurd (product_unreached (not_le.mp large) late) (not_lt.mpr stops)
    by_cases before : t + n < maxTicks
    next =>
      rw [if_pos before] at stops
      refine Or.inl ⟨before, ?_⟩
      by_contra large
      have last : n = 2147484 := by omega
      have wrapped : product n = -2147483296 := by
        rw [last]
        decide
      omega
    next =>
      rw [if_neg before] at stops
      have small : n ≤ 2125928 := by
        by_contra large
        have negative := product_after_wrapped (not_le.mp large) reached
        omega
      refine Or.inr ⟨?_, small⟩
      by_contra later
      -- the counter was reset at least one tick ago, and the test was false then
      obtain ⟨k, rfl⟩ : ∃ k, n = k + 1 := ⟨n - 1, by omega⟩
      have after : ¬ t + (k : Int) < maxTicks := by omega
      have waited := waits k (by omega) (Nat.lt_succ_self k)
      rw [test k (Nat.le_succ k), if_neg after, product_after (by omega)] at waited
      omega
  next =>
    intro exact_
    constructor
    next =>
      rw [test n (le_refl n), not_lt]
      rcases exact_ with ⟨before, small⟩ | ⟨reset, small⟩
      · rw [if_pos before, product_before small]
        omega
      · rw [if_neg (by omega), product_after small]
        omega
    next =>
      intro k some' earlier
      have before : t + (k : Int) < maxTicks := by rcases exact_ with both | both <;> omega
      have small : k ≤ 2147483 := by rcases exact_ with both | both <;> omega
      rw [test k earlier.le, if_pos before, product_before small]
      omega

theorem elapsed_self (t : Int) : elapsed t t = 0 := by
  rw [elapsed, sub_self]
  rfl

theorem zero_stops (nonneg : 0 ≤ t) (bound : t < maxTicks) (soon : k ≤ 1) : ¬ WaitsAt t 0 k := by
  have cases : k = 0 ∨ k = 1 := by omega
  rcases cases with rfl | rfl
  · rw [WaitsAt, ticksAfter, elapsed_self]
    exact lt_irrefl 0
  · have stops : ¬ WaitsAt t 1 1 := by
      rw [waitsAt_product (by decide) nonneg bound (by decide)]
      split
      · rw [product_before (by decide)]
        decide
      · rw [product_after (by decide)]
        decide
    exact fun waits => stops (lt_trans waits (by decide))

theorem ticksFor_zero : ticksFor 0 = 0 := rfl

theorem ticksFor_bounds (natural : 0 ≤ milliSec) (word : milliSec < 2147483648) :
    ticksFor milliSec ≤ 214748365 ∧ 10 * (ticksFor milliSec : Int) < milliSec + 10 ∧
      milliSec ≤ 10 * (ticksFor milliSec : Int) := by
  unfold ticksFor hz
  omega

end

section

variable {p : Polls} {t milliSec : Int} {n i : Nat}

theorem Polls.sees (some' : 0 < n) (reached : n ≤ p.passed i)
    (before : ∀ j, 0 < j → j < i → p.passed j < n) : p.passed i = n := by
  obtain ⟨j, inside, same⟩ := p.visits reached
  rcases Nat.eq_or_lt_of_le inside with rfl | earlier
  · exact same
  · have begun : 0 < j := by
      rcases Nat.eq_zero_or_pos j with rfl | begun
      · rw [p.start] at same
        omega
      · exact begun
    exact absurd same (before j begun earlier).ne

def Polls.waits (p : Polls) (t milliSec : Int) (i : Nat) : Bool :=
  elapsed (p.readings t i) (p.readings t 0) < milliSec

theorem waits_iff : p.waits t milliSec i = true ↔ WaitsAt t milliSec (p.passed i) := by
  rw [Polls.waits, decide_eq_true_iff, Polls.readings, Polls.readings, p.start]
  rfl

theorem loop_onTime (nonneg : 0 ≤ t) (bound : t < maxTicks) (natural : 0 ≤ milliSec)
    (word : milliSec < 2147483648) (exact_ : Exact t (ticksFor milliSec)) (ready : Nat → Bool) :
    ∃ fuel r told, pollFrom (p.waits t milliSec) ready fuel 1 = some (r, told) ∧
      p.OnTime (ticksFor milliSec) r told := by
  obtain ⟨last, begun, reached, before⟩ := p.first (ticksFor milliSec)
  obtain ⟨once, late, early⟩ := ticksFor_bounds natural word
  have ends : (∀ j, 1 ≤ j → j < last → p.waits t milliSec j = true) ∧
      p.waits t milliSec last = false := by
    rw [← Bool.not_eq_true]
    simp only [waits_iff]
    rcases Int.lt_or_eq_of_le natural with positive | rfl
    · obtain ⟨stops, waits⟩ := (turnsAt_iff positive nonneg bound once late early).mpr exact_
      constructor
      · intro j above below
        rcases Nat.eq_zero_or_pos (p.passed j) with none' | some'
        · rw [none', WaitsAt, ticksAfter, elapsed_self]
          exact positive
        · exact waits _ some' (before j above below)
      · rwa [p.sees (by omega) reached before]
    · have first' : last = 1 := by
        by_contra later
        exact absurd (before 1 (by decide) (by omega)) (Nat.not_lt_zero _)
      subst first'
      have step := p.each 0
      rw [p.start] at step
      exact ⟨fun j above below => absurd above (not_le.mpr below), zero_stops nonneg bound step⟩
  obtain ⟨⟨r, told⟩, done, started, outcome⟩ := pollFrom_ends begun ends.1 ends.2
  refine ⟨_, r, told, done, ?_⟩
  rcases outcome with ⟨wasTold, earlier⟩ | ⟨notTold, same⟩
  · have inside := before r started earlier
    refine ⟨fun j above below => before j above (lt_trans below earlier), ?_⟩
    exact iff_of_false (by simp [show told = true from wasTold]) (not_le.mpr inside)
  · have last' : r = last := same
    subst last'
    exact ⟨before, iff_of_true notTold reached⟩

theorem onTime_exact (nonneg : 0 ≤ t) (bound : t < maxTicks) (natural : 0 ≤ milliSec)
    (word : milliSec < 2147483648) {fuel : Nat} {told : Bool}
    (done : pollFrom (p.waits t milliSec) (fun _ => false) fuel 1 = some (i, told))
    (onTime : p.OnTime (ticksFor milliSec) i told) : Exact t (ticksFor milliSec) := by
  obtain ⟨once, late, early⟩ := ticksFor_bounds natural word
  rcases Int.lt_or_eq_of_le natural with positive | rfl
  · obtain ⟨notTold, stops, waited⟩ := pollFrom_waited done
    have reached := onTime.timeout.mp notTold
    have some' : 0 < ticksFor milliSec := by omega
    have last := p.sees some' reached onTime.before
    rw [← turnsAt_iff positive nonneg bound once late early]
    constructor
    next =>
      rw [← last, ← waits_iff, stops]
      exact Bool.false_ne_true
    next =>
      intro k some'' earlier
      obtain ⟨j, inside, same⟩ := p.visits (le_trans earlier.le reached)
      have notLast : j ≠ i := by
        rintro rfl
        omega
      have begun : 0 < j := by
        rcases Nat.eq_zero_or_pos j with rfl | begun
        · rw [p.start] at same
          omega
        · exact begun
      rw [← same]
      exact waits_iff.mp (waited j begun (by omega))
  · exact Or.inl ⟨by rw [ticksFor_zero]; simpa using bound, by decide⟩

/--
`milli_delay()` and `waitfor()` end when the ticks of their delay have passed, and not before, if
and only if the delay is over before the counter is reset, or with the reset, and its product with
1000 fits an `int`: after a reset the test takes the delay for 215550 milliseconds longer.
-/
theorem delays_survive (p : Polls) {t milliSec : Int} (nonneg : 0 ≤ t) (bound : t < maxTicks)
    (natural : 0 ≤ milliSec) (word : milliSec < 2147483648) :
    ((∃ fuel i told, milliDelay (p.readings t) milliSec fuel = some (i, told) ∧
      p.OnTime (ticksFor milliSec) i told) ↔ Exact t (ticksFor milliSec)) ∧
    ((∀ status mask val, ∃ fuel i told,
      waitfor (p.readings t) status mask val milliSec fuel = some (i, told) ∧
        p.OnTime (ticksFor milliSec) i told) ↔ Exact t (ticksFor milliSec)) := by
  constructor
  next =>
    constructor
    next =>
      rintro ⟨fuel, i, told, done, onTime⟩
      exact onTime_exact nonneg bound natural word done onTime
    next =>
      intro exact_
      exact loop_onTime nonneg bound natural word exact_ _
  next =>
    constructor
    next =>
      intro always
      -- a status register that never shows the value
      obtain ⟨fuel, i, told, done, onTime⟩ := always (fun _ => 0) 0 1
      have never : i32 ((0 : UInt8).toNat &&& u32 0) ≠ 1 := by decide
      simp only [waitfor, never, decide_false] at done
      exact onTime_exact nonneg bound natural word done onTime
    next =>
      intro exact_ status mask val
      exact loop_onTime nonneg bound natural word exact_ _

-- A loop that polls once in every tick.
def everyTick : Polls where
  passed i := i
  start := rfl
  forward := Nat.le_succ
  each i := le_refl (i + 1)
  goesOn n := ⟨n, le_refl n⟩

theorem delays_survive_reset :
    ((∃ fuel i told, milliDelay (everyTick.readings (maxTicks - 1)) 20 fuel = some (i, told) ∧
      everyTick.OnTime (ticksFor 20) i told) ↔ Exact (maxTicks - 1) (ticksFor 20)) ∧
    ((∀ status mask val, ∃ fuel i told,
      waitfor (everyTick.readings (maxTicks - 1)) status mask val 20 fuel = some (i, told) ∧
        everyTick.OnTime (ticksFor 20) i told) ↔ Exact (maxTicks - 1) (ticksFor 20)) :=
  delays_survive everyTick (by decide) (by decide) (by decide) (by decide)

-- Two ticks are to be waited for, and the loop ends after the first one, which resets the counter.
theorem delay_ends_early :
    ticksFor 20 = 2 ∧ milliDelay (everyTick.readings (maxTicks - 1)) 20 3 = some (1, false) ∧
      ¬ everyTick.OnTime (ticksFor 20) 1 false :=
  ⟨rfl, by decide +kernel, fun onTime => absurd (onTime.timeout.mp rfl) (by decide)⟩

end

section

variable {s s' : Scheduled}

theorem refill_clock : s.refill.clock = s.clock := by
  have step (l : List Int) (s : Scheduled) :
      (l.foldl (fun s p => if s.Runs p then s.setTicks p (s.priority p) else s) s).clock =
        s.clock := by
    induction l generalizing s with
    | nil => rfl
    | cons p l ih =>
      rw [List.foldl_cons, ih]
      split <;> rfl
  exact step procs s

theorem scheduleFrom_clock {fuel : Nat} (done : Scheduled.scheduleFrom fuel s = some s') :
    s'.clock = s.clock := by
  induction fuel generalizing s with
  | zero => cases done
  | succ fuel ih =>
    rw [Scheduled.scheduleFrom] at done
    dsimp only at done
    by_cases ended : s.choose.1 ≠ 0
    next =>
      rw [if_pos ended] at done
      cases done
      rfl
    next =>
      rw [if_neg ended] at done
      rw [ih done, refill_clock]

theorem clockHandler_clock {kReenter : Int} (done : s.clockHandler kReenter = .ok s') :
    s'.clock = nextTick s.clock := by
  have ticked : s.tick.clock = nextTick s.clock := by
    simp only [Scheduled.tick]
    split <;> rfl
  obtain ⟨s₁, woken, done⟩ := bind_ok done
  obtain ⟨k, -, kept⟩ := bind_ok woken
  cases kept
  rw [← ticked]
  split at done
  · cases done
    rfl
  · split at done
    · cases done
      rfl
    · split at done
      · next scheduled =>
        cases done
        rw [scheduleFrom_clock scheduled]
      · cases done

end

end Konix.Kernel
