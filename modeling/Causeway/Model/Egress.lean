import Causeway.Model.Wire
import Causeway.Order.Distinct
import Mathlib.Data.List.Lex
import Mathlib.Data.String.Basic
import Mathlib.Data.Prod.Lex

/-!
# The kernel's default routes

`egress.rs`: what of the two route tables makes a signature, and when a change of the signature is delivered. Times are nanoseconds since any fixed moment.
-/

namespace Causeway

/-! ### Text -/

/-- A line without the terminator that `split_inclusive` leaves on it. -/
def stripCr (line : List Char) : List Char := if line.getLast? = some '\r' then line.dropLast else line

/-- `str::lines` -/
def textLines (text : List Char) : List (List Char) :=
  let pieces := text.splitOnP (· = '\n')
  pieces.dropLast.map stripCr ++ (pieces.getLast?.filter fun last => !last.isEmpty).toList

/-- The value of a digit, as `char::to_digit` has it for a radix up to 16. -/
def toDigit (radix : Nat) (c : Char) : Option Nat :=
  let n := c.toNat
  let value :=
    if 48 ≤ n && n ≤ 57 then some (n - 48)
    else if 97 ≤ n && n ≤ 102 then some (n - 87)
    else if 65 ≤ n && n ≤ 70 then some (n - 55)
    else none
  value.filter (· < radix)

/-- `u32::from_str_radix`, which is `str::parse` for radix 10. -/
def u32FromStrRadix (text : List Char) (radix : Nat) : Option Nat :=
  let digits :=
    match text with
    | '+' :: digits => digits
    | digits => digits
  if digits.isEmpty then none
  else
    match digits.mapM (toDigit radix) with
    | none => none
    | some values =>
        let n := values.foldl (fun n value => radix * n + value) 0
        if n < 2 ^ 32 then some n else none

/-- `str::to_ascii_lowercase` -/
def toAsciiLowercase (text : List Char) : List Char := text.map Char.toLower

/-! ### Signatures -/

structure DefaultRoute where
  interface : String
  gateway : String
  metric : Nat
deriving DecidableEq, Repr

namespace DefaultRoute

/-- What the derived order compares, the first field first. -/
def key (route : DefaultRoute) : String ×ₗ String ×ₗ Nat := toLex (route.interface, toLex (route.gateway, route.metric))

theorem key_injective : Function.Injective key := by
  intro a b h
  cases a
  cases b
  simpa [key] using h

instance : LinearOrder DefaultRoute := LinearOrder.lift' key key_injective

end DefaultRoute

structure EgressSignature where
  ipv4 : List DefaultRoute
  ipv6 : List DefaultRoute
deriving DecidableEq, Repr

def EgressSignature.hasDefaultRoute (signature : EgressSignature) : Bool := !signature.ipv4.isEmpty || !signature.ipv6.isEmpty

def preferred (routes : List DefaultRoute) : List DefaultRoute :=
  match (routes.map (·.metric)).min? with
  | none => routes
  | some metric => Distinct.sortDedup (routes.filter fun route => decide (route.metric = metric))

structure RouteLayout where
  /-- The least number of fields. -/
  fields : Nat
  /-- The fields that a default route has, with their text. -/
  zero : List (Nat × String)
  flags : Nat
  interface : Nat
  gateway : Nat
  metric : Nat
  metricRadix : Nat

/-- The route of one line, if it is a default route that is up. -/
def RouteLayout.route (layout : RouteLayout) (line : List Char) : Option DefaultRoute := do
  let fields := splitWhitespace line
  let field := fun i => fields.getD i []
  if fields.length < layout.fields ∨ ∃ zero ∈ layout.zero, field zero.1 ≠ zero.2.toList then none
  else
    let flags ← u32FromStrRadix (field layout.flags) 16
    if flags &&& 1 = 0 then none
    else
      let metric ← u32FromStrRadix (field layout.metric) layout.metricRadix
      return {
        interface := String.ofList (field layout.interface)
        gateway := String.ofList (toAsciiLowercase (field layout.gateway))
        metric }

def ipv4Layout : RouteLayout where
  fields := 8
  zero := [(1, "00000000"), (7, "00000000")]
  flags := 3
  interface := 0
  gateway := 2
  metric := 6
  metricRadix := 10

def ipv6Layout : RouteLayout where
  fields := 10
  zero := [(0, "00000000000000000000000000000000"), (1, "00"), (2, "00000000000000000000000000000000"), (3, "00")]
  flags := 8
  interface := 9
  gateway := 4
  metric := 5
  metricRadix := 16

/-- The first line of the IPv4 table is its header. -/
def parseIpv4Defaults (text : List Char) : List DefaultRoute := ((textLines text).drop 1).filterMap ipv4Layout.route

def parseIpv6Defaults (text : List Char) : List DefaultRoute := (textLines text).filterMap ipv6Layout.route

def parseSignature (ipv4 ipv6 : List Char) : EgressSignature where
  ipv4 := preferred (parseIpv4Defaults ipv4)
  ipv6 := preferred (parseIpv6Defaults ipv6)

/-! ### The observer -/

structure StableEgressObserver where
  stableFor : Nat
  cooldown : Nat
  baseline : Option EgressSignature
  candidate : Option (EgressSignature × Nat)
  lastTransition : Option Nat

namespace StableEgressObserver

def new (stableFor cooldown : Nat) : StableEgressObserver where
  stableFor
  cooldown
  baseline := none
  candidate := none
  lastTransition := none

/-- `observe`; `Instant::duration_since` stops at zero. -/
def observe (observer : StableEgressObserver) (signature : EgressSignature) (now : Nat) :
    Option EgressSignature × StableEgressObserver :=
  match observer.baseline with
  | none => (none, { observer with baseline := some signature })
  | some baseline =>
      if baseline = signature then (none, { observer with candidate := none })
      else if observer.lastTransition.any fun last => now - last < observer.cooldown then
        (none, { observer with baseline := some signature, candidate := none })
      else
        match observer.candidate.filter (·.1 = signature) with
        | none => (none, { observer with candidate := some (signature, now) })
        | some (confirmed, firstSeen) =>
            if now - firstSeen < observer.stableFor then (none, observer)
            else if confirmed.hasDefaultRoute then
              (some confirmed, { observer with baseline := some confirmed, candidate := none, lastTransition := some now })
            else (none, { observer with baseline := some confirmed, candidate := none })

end StableEgressObserver

end Causeway
