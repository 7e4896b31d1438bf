import TomAgent.Connector.MailboxRuns
import TomAgent.Connector.Expiry
import TomAgent.Executor.Argv
import TomAgent.Executor.Engine

/-!
# The timeout of a command

A timeout in seconds comes to the engine as a number of 64 bits from the poller, or of
32 bits in an envelope of the connector, is multiplied to nanoseconds and then limited.
What the conversions and the product wrap around to is below the limit again.
-/

namespace TomAgent.Executor

open Connector (Mailbox)
open Platform (Dispatch)

def second : Int64 := 1000000000

/-- The limit: that of the configuration, or 300 s, or that of the plugin if it is smaller. -/
def timeoutCap (maxTimeout : Int64) (a : ExecAction) : Int64 :=
  let maxTimeout := if maxTimeout ≤ 0 then 300 * second else maxTimeout
  if 0 < a.pluginTO ∧ a.pluginTO < maxTimeout then a.pluginTO else maxTimeout

def appliedTimeout (maxTimeout : Int64) (a : ExecAction) (cmd : Command) : Int64 :=
  let timeout := cmd.timeoutSec * second
  if timeout ≤ 0 ∨ timeoutCap maxTimeout a < timeout then timeoutCap maxTimeout a else timeout

/-! ## How it gets there -/

inductive Route where
  /-- `/admin/command`, the mailbox, an envelope and `SubmitEnvelope`. -/
  | mailbox
  /-- A command of the HTTP poller. -/
  | poller

def adminTimeout (timeoutSec : Int64) : Int64 := if timeoutSec ≤ 0 then 60 else timeoutSec

/-- What the command of the engine has for a timeout that was sent. -/
def Route.timeoutSec : Route → Int64 → Int64
  | .mailbox, sent => (adminTimeout sent).toUInt64.toUInt32.toUInt64.toInt64
  | .poller, sent => sent

theorem toInt_eq_bmod (x : Int64) : x.toInt = (x.toUInt64.toNat : Int).bmod (2 ^ 64) :=
  BitVec.toInt_eq_toNat_bmod _

theorem toNat_toUInt32 (x : Int64) : (x.toUInt64.toUInt32.toNat : Int) = x.toInt % 2 ^ 32 := by
  have hbmod := toInt_eq_bmod x
  rw [Int.bmod_def] at hbmod
  rw [UInt64.toNat_toUInt32]
  omega

theorem toInt_toInt64 (x : UInt32) : x.toUInt64.toInt64.toInt = x.toNat := by
  have hlt := x.toNat_lt
  rw [toInt_eq_bmod, UInt64.toUInt64_toInt64, UInt32.toNat_toUInt64, Int.bmod_def]
  omega

theorem toInt_timeoutSec_mailbox {sent : Int64} (hpos : 0 < sent) :
    (Route.mailbox.timeoutSec sent).toInt = sent.toInt % 2 ^ 32 := by
  have hadmin : adminTimeout sent = sent := by
    rw [adminTimeout, if_neg]
    rw [Int64.lt_iff_toInt_lt] at hpos
    rw [Int64.le_iff_toInt_le]
    omega
  rw [Route.timeoutSec, hadmin, toInt_toInt64, toNat_toUInt32]

theorem timeoutSec_mailbox (m : Mailbox) {d : Dispatch} (now now' : Int) {sent : Int64}
    (hd : d.timeoutSec = (adminTimeout sent).toInt) {env : Authenv.CommandEnvelope}
    (henv : env.timeoutSec.toNat = ((m.fresh d now).envelope now').timeoutSec) :
    (Command.ofEnvelope env).timeoutSec = Route.mailbox.timeoutSec sent := by
  have hwire : env.timeoutSec = (adminTimeout sent).toUInt64.toUInt32 := by
    rw [← UInt32.toNat_inj, henv]
    change (d.timeoutSec % 2 ^ 32).toNat = _
    rw [hd, ← toNat_toUInt32, Int.toNat_natCast]
  rw [Command.ofEnvelope, Route.timeoutSec, hwire]

/-! ## What is applied -/

def wrapped (seconds : Int) : Int := (seconds * 10 ^ 9).bmod (2 ^ 64)

theorem toInt_appliedTimeout (maxTimeout : Int64) (a : ExecAction) (cmd : Command) :
    (appliedTimeout maxTimeout a cmd).toInt =
      if wrapped cmd.timeoutSec.toInt ≤ 0 ∨
          (timeoutCap maxTimeout a).toInt < wrapped cmd.timeoutSec.toInt
        then (timeoutCap maxTimeout a).toInt else wrapped cmd.timeoutSec.toInt := by
  have hproduct : (cmd.timeoutSec * second).toInt = wrapped cmd.timeoutSec.toInt :=
    Int64.toInt_mul cmd.timeoutSec second
  have hlimited : (cmd.timeoutSec * second ≤ 0 ∨
      timeoutCap maxTimeout a < cmd.timeoutSec * second) ↔
      wrapped cmd.timeoutSec.toInt ≤ 0 ∨
        (timeoutCap maxTimeout a).toInt < wrapped cmd.timeoutSec.toInt := by
    rw [Int64.le_iff_toInt_le, Int64.lt_iff_toInt_lt, hproduct]
    rfl
  unfold appliedTimeout
  dsimp only
  split
  next h => rw [if_pos (hlimited.mp h)]
  next h => rw [if_neg (mt hlimited.mpr h), hproduct]

theorem wrapped_of_lt {seconds : Int} (hpos : 0 ≤ seconds) (h : seconds * 10 ^ 9 < 2 ^ 63) :
    wrapped seconds = seconds * 10 ^ 9 := by
  unfold wrapped
  rw [Int.bmod_def]
  omega

/-- The numbers of seconds that arrive as they were sent, or as others that are limited the
same: `cap` is the limit in nanoseconds. -/
def Route.Exact (cap : Int) : Route → Int64 → Prop
  | .mailbox, sent =>
      sent.toInt < 2 ^ 32 ∨
        if sent.toInt % 2 ^ 32 = 0 then cap ≤ sent.toInt * 10 ^ 9
        else cap ≤ sent.toInt % 2 ^ 32 * 10 ^ 9
  | .poller, sent =>
      sent.toInt * 10 ^ 9 < 2 ^ 63 ∨ wrapped sent.toInt ≤ 0 ∨ cap ≤ wrapped sent.toInt

/-- For every positive number of seconds, every limit and both routes: the timeout that is
applied is the smaller of the two, exactly, if and only if the number is one that the route
carries. -/
theorem timeout_survives_iff (route : Route) (maxTimeout : Int64) (a : ExecAction) (cmd : Command)
    (sent : Int64) (hpos : 0 < sent) (hcmd : cmd.timeoutSec = route.timeoutSec sent) :
    (appliedTimeout maxTimeout a cmd).toInt =
        min (sent.toInt * 10 ^ 9) (timeoutCap maxTimeout a).toInt ↔
      route.Exact (timeoutCap maxTimeout a).toInt sent := by
  have hsent : 0 < sent.toInt := Int64.lt_iff_toInt_lt.mp hpos
  have hcap := Int64.toInt_lt (timeoutCap maxTimeout a)
  rw [toInt_appliedTimeout, hcmd]
  generalize (timeoutCap maxTimeout a).toInt = cap at *
  cases route with
  | mailbox =>
      have hbound : sent.toInt % 2 ^ 32 * 10 ^ 9 < 2 ^ 63 := by omega
      rw [toInt_timeoutSec_mailbox hpos, wrapped_of_lt (by omega) hbound, Route.Exact]
      by_cases hfits : sent.toInt < 2 ^ 32
      · have hsame : sent.toInt % 2 ^ 32 = sent.toInt := by omega
        rw [hsame]
        split <;> omega
      · split <;> split <;> omega
  | poller =>
      rw [Route.timeoutSec, Route.Exact]
      by_cases hfits : sent.toInt * 10 ^ 9 < 2 ^ 63
      · rw [wrapped_of_lt (by omega) hfits]
        split <;> omega
      · split <;> omega

def minuteCommand : Command := ⟨ascii "c1", ascii "diagnose.disk_usage", ∅, 60⟩

theorem timeout_survives_minute :
    (0 : Int64) < 60 ∧ minuteCommand.timeoutSec = Route.mailbox.timeoutSec 60 ∧
      (appliedTimeout 0 readLogTail minuteCommand).toInt =
        min ((60 : Int64).toInt * 10 ^ 9) (timeoutCap 0 readLogTail).toInt :=
  ⟨by decide, by decide, (timeout_survives_iff .mailbox 0 readLogTail minuteCommand 60
    (by decide) (by decide)).mpr (.inl (by decide))⟩

/-- One second more than 2³² is one second in an envelope, and the product of a number from
the poller can be 512 ns. -/
theorem timeout_wraps :
    (appliedTimeout 0 readLogTail
        { minuteCommand with timeoutSec := Route.mailbox.timeoutSec 4294967297 }) = second ∧
      (appliedTimeout 0 readLogTail
        { minuteCommand with timeoutSec := Route.poller.timeoutSec 20211507185753197 }) = 512 ∧
      timeoutCap 0 readLogTail = 300 * second := by
  decide

end TomAgent.Executor
