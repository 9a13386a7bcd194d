import OutcomeMarket.Live.Trader
import OutcomeMarket.Record.Basic
import OutcomeMarket.Replay.Candle

/-! Market data in documents: levels, news about a book, ticks and candles; metrics and the way in which
a strategy presents itself. -/
namespace OutcomeMarket

instance : ToDatum RawLevel where
  toDatum l := .record [("price", toDatum l.price), ("size", toDatum l.size)]

instance : OfDatum RawLevel where
  ofDatum? d := do
    let fields ← d.fields? ["price", "size"]
    return ⟨← Datum.field? fields "price", ← Datum.field? fields "size"⟩

instance : ToDatum BookEvent where
  toDatum e := .record [("asset_id", toDatum e.asset), ("bids", toDatum e.bids),
    ("asks", toDatum e.asks), ("snapshot", toDatum e.isSnapshot)]

/-- News without levels on a side change nothing there, and are no snapshot unless they say so. -/
instance : OfDatum BookEvent where
  ofDatum? d := do
    let fields ← d.fields? ["asset_id", "bids", "asks", "snapshot"]
    return {
      asset := ← Datum.field? fields "asset_id"
      bids := ← Datum.fieldD fields "bids" []
      asks := ← Datum.fieldD fields "asks" []
      isSnapshot := ← Datum.fieldD fields "snapshot" false }

instance : ToDatum Tick where
  toDatum t := .record [("asset_id", toDatum t.asset), ("timestamp", toDatum t.time),
    ("price", toDatum t.price), ("size", toDatum t.size)]

instance : OfDatum Tick where
  ofDatum? d := do
    let fields ← d.fields? ["asset_id", "timestamp", "price", "size"]
    return {
      asset := ← Datum.field? fields "asset_id"
      time := ← Datum.field? fields "timestamp"
      price := ← Datum.field? fields "price"
      size := ← Datum.field? fields "size" }

instance : ToDatum Candle where
  toDatum c := .record [("asset_id", toDatum c.asset), ("open_time", toDatum c.openTime),
    ("open", toDatum c.opening), ("high", toDatum c.high), ("low", toDatum c.low),
    ("close", toDatum c.closing), ("volume", toDatum c.volume)]

instance : OfDatum Candle where
  ofDatum? d := do
    let fields ← d.fields? ["asset_id", "open_time", "open", "high", "low", "close", "volume"]
    return {
      asset := ← Datum.field? fields "asset_id"
      openTime := ← Datum.field? fields "open_time"
      opening := ← Datum.field? fields "open"
      high := ← Datum.field? fields "high"
      low := ← Datum.field? fields "low"
      closing := ← Datum.field? fields "close"
      volume := ← Datum.field? fields "volume" }

instance : ToDatum MetricKind := ⟨fun k => .text k.name⟩

instance : OfDatum MetricKind := ⟨Datum.named? MetricKind.ofName?⟩

/-- A metric that was taken at the moment it was made is written without a time. -/
instance : ToDatum Metric where
  toDatum m := .record ((m.time.map fun t => ("timestamp", toDatum t)).toList ++
    [("source", toDatum m.source), ("metric_type", toDatum m.kind),
      ("metric_name", toDatum m.name), ("value", toDatum m.value), ("labels", toDatum m.labels)])

instance : OfDatum Metric where
  ofDatum? d := do
    let fields ← d.fields?
      ["timestamp", "source", "metric_type", "metric_name", "value", "labels"]
    return {
      time := some (← Datum.field? fields "timestamp")
      source := ← Datum.field? fields "source"
      kind := ← Datum.field? fields "metric_type"
      name := ← Datum.field? fields "metric_name"
      value := ← Datum.field? fields "value"
      labels := ← Datum.field? fields "labels" }

instance : ToDatum StrategyMetadata where
  toDatum m := .record [("name", toDatum m.name), ("version", toDatum m.version),
    ("description", toDatum m.description)]

instance : OfDatum StrategyMetadata where
  ofDatum? d := do
    let fields ← d.fields? ["name", "version", "description"]
    return {
      name := ← Datum.field? fields "name"
      version := ← Datum.field? fields "version"
      description := ← Datum.field? fields "description" }

end OutcomeMarket
