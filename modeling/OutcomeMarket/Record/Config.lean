import OutcomeMarket.Data.Json.Reader
import OutcomeMarket.Data.Yaml.Node
import OutcomeMarket.Live.Trader
import OutcomeMarket.Record.Basic
import OutcomeMarket.Replay.Backtest

/-! Configurations in documents. What a document leaves out has its standard value. A document that has been
read is validated; one from a file is JSON if the name of the file says so, and YAML otherwise. -/
namespace OutcomeMarket

instance : ToDatum BrokerConfig where
  toDatum c := .record [("starting_cash", toDatum c.startingCash),
    ("spread_penalty", toDatum c.spreadPenalty),
    ("max_participation_rate", toDatum c.maxParticipationRate),
    ("resolution_fee_rate", toDatum c.resolutionFeeRate), ("latency_ms", toDatum c.latencyMillis)]

instance : OfDatum BrokerConfig where
  ofDatum? d := do
    let fields ← d.fields?
      ["starting_cash", "spread_penalty", "max_participation_rate", "resolution_fee_rate",
        "latency_ms"]
    let c := BrokerConfig.standard
    return {
      startingCash := ← Datum.fieldD fields "starting_cash" c.startingCash
      spreadPenalty := ← Datum.fieldD fields "spread_penalty" c.spreadPenalty
      maxParticipationRate := ← Datum.fieldD fields "max_participation_rate" c.maxParticipationRate
      resolutionFeeRate := ← Datum.fieldD fields "resolution_fee_rate" c.resolutionFeeRate
      latencyMillis := ← Datum.fieldD fields "latency_ms" c.latencyMillis }

instance : ToDatum BacktestConfig where
  toDatum c := .record [("broker", toDatum c.broker), ("liquidate_at_end", toDatum c.liquidateAtEnd),
    ("resolution_price", toDatum c.resolutionPrice)]

instance : OfDatum BacktestConfig where
  ofDatum? d := do
    let fields ← d.fields? ["broker", "liquidate_at_end", "resolution_price"]
    let c := BacktestConfig.standard
    return {
      broker := ← Datum.fieldD fields "broker" c.broker
      liquidateAtEnd := ← Datum.fieldD fields "liquidate_at_end" c.liquidateAtEnd
      resolutionPrice := ← Datum.fieldD fields "resolution_price" c.resolutionPrice }

instance : ToDatum TraderConfig where
  toDatum c := .record [("broker", toDatum c.broker),
    ("heartbeat_interval_secs", toDatum c.heartbeatSeconds)]

instance : OfDatum TraderConfig where
  ofDatum? d := do
    let fields ← d.fields? ["broker", "heartbeat_interval_secs"]
    let c := TraderConfig.standard
    return {
      broker := ← Datum.fieldD fields "broker" c.broker
      heartbeatSeconds := ← Datum.fieldD fields "heartbeat_interval_secs" c.heartbeatSeconds }

/-- How a document is written. -/
inductive Notation where
  | json
  | yaml
  deriving DecidableEq, Repr

namespace Notation

/-- Configurations hold records, and these hold none. -/
def nesting : Nat := 2

def read? : Notation → String → Option Datum
  | json, s => Json.read? s
  | yaml, s => Yaml.read? nesting s

/-- What follows the last point of a file's name, if something stands before it. -/
def extension? (name : String) : Option (List Char) :=
  let reversed := name.toList.reverse
  let stem := (reversed.dropWhile (· ≠ '.')).drop 1
  if stem.isEmpty then none else some (reversed.takeWhile (· ≠ '.')).reverse

/-- The notation of the file with this name. -/
def ofFileName (name : String) : Notation :=
  if extension? name = some "json".toList then json else yaml

end Notation

/-- What can go wrong when a configuration is read, in terms of its errors. -/
class Configuration (α : Type) (ε : outParam Type) extends OfDatum α where
  malformed : Notation → ε
  unreadable : String → ε
  validate : α → Except ε Unit

namespace Configuration

variable {α ε : Type} [Configuration α ε]

/-- The valid configuration that a text holds. -/
def ofText (n : Notation) (s : String) : Except ε α :=
  match (n.read? s).bind ofDatum? with
  | none => .error (malformed α n)
  | some c => do
    validate c
    return c

/-- The valid configuration that a file holds. There may be no file of the name. -/
def ofFile (name : String) (contents : Option ByteArray) : Except ε α :=
  match contents with
  | none => .error (unreadable α "No such file or directory (os error 2)")
  | some bytes =>
    match String.fromUTF8? bytes with
    | none => .error (unreadable α "stream did not contain valid UTF-8")
    | some s => ofText (.ofFileName name) s

/-- What is read from a text is valid. -/
theorem validate_of_ofText {n : Notation} {s : String} {c : α} (h : ofText n s = .ok c) :
    validate c = .ok () := by
  unfold ofText at h
  split at h
  · cases h
  · simp only [bind_eq_ok_iff, pure_eq_ok_iff] at h
    obtain ⟨_, hv, rfl⟩ := h
    exact hv

end Configuration

instance : Configuration BrokerConfig ExecutionError where
  malformed
    | .json => .malformedJson
    | .yaml => .malformedYaml
  unreadable := .unreadableFile
  validate c := c.validate.mapError fun p => .configuration p.message

instance : Configuration BacktestConfig StrategyError where
  malformed
    | .json => .malformedJson
    | .yaml => .malformedYaml
  unreadable := .unreadableFile
  validate c := c.validate

instance : Configuration TraderConfig StrategyError where
  malformed
    | .json => .malformedJson
    | .yaml => .malformedYaml
  unreadable := .unreadableFile
  validate c := c.validate

end OutcomeMarket
