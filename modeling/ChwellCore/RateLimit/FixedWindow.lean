import ChwellCore.RateLimit.TokenBucket

/-!
# The fixed window

`FixedWindowRateLimiter` counts the requests for a key since its window was started, and starts a
new window with the first request after the old one is over.  `check` counts a request that it
admits, and `consume` is `check`, whatever the count it is given.
-/

set_option autoImplicit false

namespace ChwellCore

/-- `Window`. -/
structure Window where
  count : ℤ
  startTimeMs : ℤ
deriving DecidableEq, Repr

/-- The readings that an operation takes off the clock: when it creates a window, when it looks
whether the window is over, when it starts a new one, and when it works out how long to wait. -/
structure WindowReadings where
  created : ℤ
  now : ℤ
  restarted : ℤ
  refused : ℤ

/-- The table of windows of a limiter. -/
abbrev Windows := UnorderedMap Bytes Window

/-- `FixedWindowRateLimiter::should_reset_window`. -/
def shouldResetWindow (windowSizeMs now : ℤ) (w : Window) : Bool :=
  now - w.startTimeMs ≥ windowSizeMs

namespace Windows

variable (maxRequests windowSizeMs : ℤ)

/-- The window of `key`, which is created if there is none, and started anew if it is over. -/
def current (t : WindowReadings) (key : Bytes) (s : Windows) : Window :=
  let w := (s.lookup key).getD ⟨0, t.created⟩
  if shouldResetWindow windowSizeMs t.now w then ⟨0, t.restarted⟩ else w

/-- `FixedWindowRateLimiter::check`. -/
def check (t : WindowReadings) (key : Bytes) (s : Windows) : RateLimitResult × Windows :=
  let w := current windowSizeMs t key s
  if w.count < maxRequests then
    ({ allowed := true, remaining := maxRequests - (w.count + 1) },
      s.insert key { w with count := w.count + 1 })
  else
    ({ allowed := false
       remaining := 0
       reason := lit "Fixed window limit exceeded"
       waitTimeMs := windowSizeMs - (t.refused - w.startTimeMs) },
      s.insert key w)

/-- `FixedWindowRateLimiter::consume`. -/
def consume (t : WindowReadings) (key : Bytes) (_count : ℤ) (s : Windows) : Bool × Windows :=
  let r := check maxRequests windowSizeMs t key s
  (r.1.allowed, r.2)

end Windows

end ChwellCore
