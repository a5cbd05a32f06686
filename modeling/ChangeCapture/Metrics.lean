import ChangeCapture.Decimal.Binary64
import ChangeCapture.Dictionary
import ChangeCapture.Json.Printer

/-!
# Metrics

Four counters and a gauge for each connector, labelled with its name. A counter holds 64 bits and
wraps around; the gauge is a signed number of 64 bits. The text exposition lists the families by
name and the connectors of a family by label.

## Main definitions

* `Metrics`: the five values of a connector.
* `Metrics.exposition`: the text of one connector's families.
* `Metrics.expositionOf`: the text of several connectors' families.
* `MetricsBoard`: the metrics of several connectors, and which of them are exposed.
-/

namespace ChangeCapture

/-- The counters and the gauge of one connector. -/
structure Metrics where
  recordsDelivered : Nat := 0
  batchesPolled : Nat := 0
  flushesCommitted : Nat := 0
  flushesFailed : Nat := 0
  recordsPending : Int := 0
  deriving DecidableEq, Repr, Inhabited

/-- The counters. -/
inductive Counter where
  | recordsDelivered
  | batchesPolled
  | flushesCommitted
  | flushesFailed
  deriving DecidableEq, Repr

namespace Metrics

/-- The sum of two numbers of 64 bits, around the end. -/
def wrap (n : Nat) : Nat :=
  n % Word.size

/-- Adds to a counter. -/
def add (m : Metrics) (counter : Counter) (n : Nat) : Metrics :=
  match counter with
  | .recordsDelivered => { m with recordsDelivered := wrap (m.recordsDelivered + n) }
  | .batchesPolled => { m with batchesPolled := wrap (m.batchesPolled + n) }
  | .flushesCommitted => { m with flushesCommitted := wrap (m.flushesCommitted + n) }
  | .flushesFailed => { m with flushesFailed := wrap (m.flushesFailed + n) }

/-- Sets the gauge. -/
def setPending (m : Metrics) (n : Int) : Metrics :=
  { m with recordsPending := n }

/-! ### Exposition -/

/-- A family of metrics: one value for each connector. -/
structure Family where
  name : String
  help : String
  kind : String
  value : Metrics → Int

/-- The families, in the order of their names. -/
def families : List Family :=
  [⟨"embedded_connector_batches_total",
      "Total number of non-empty batches returned by the source task", "counter",
      fun m => m.batchesPolled⟩,
    ⟨"embedded_connector_offset_flush_failures_total",
      "Total number of offset flushes that failed, timed out, or were interrupted", "counter",
      fun m => m.flushesFailed⟩,
    ⟨"embedded_connector_offset_flushes_total",
      "Total number of offset flushes confirmed by the offset store", "counter",
      fun m => m.flushesCommitted⟩,
    ⟨"embedded_connector_records_delivered_total",
      "Total number of change records handed to the consumer", "counter",
      fun m => m.recordsDelivered⟩,
    ⟨"embedded_connector_records_pending_commit",
      "Records delivered since the last successful offset flush", "gauge",
      fun m => m.recordsPending⟩]

/-- A character of a label. -/
def escapeLabel (c : Char) : List Char :=
  if c = '\\' then ['\\', '\\']
  else if c = '\n' then ['\\', 'n']
  else if c = '"' then ['\\', '"']
  else [c]

/-- A value as the digits of its nearest double, without point or exponent. -/
def valueText (n : Int) : String :=
  let sign := if n < 0 then ['-'] else []
  let magnitude :=
    match Binary64.nearest? n.natAbs 1 with
    | some x =>
      if x.mantissa = 0 then ['0']
      else
        let d := x.shortest
        Json.natDigits d.digits ++ List.replicate d.exponent.toNat '0'
    | none => []
  String.ofList (sign ++ magnitude)

/-- The line of one connector in a family. -/
def sample (family : Family) (connector : String) (m : Metrics) : String :=
  family.name ++ "\x7bconnector=\"" ++ String.ofList (connector.toList.flatMap escapeLabel) ++
    "\"\x7d " ++ valueText (family.value m) ++ "\n"

/-- The text of a family, with a line for each connector. -/
def familyText (connectors : List (String × Metrics)) (family : Family) : String :=
  "# HELP " ++ family.name ++ " " ++ family.help ++ "\n" ++
    "# TYPE " ++ family.name ++ " " ++ family.kind ++ "\n" ++
      String.join (connectors.map fun c => sample family c.1 c.2)

/-- **The text exposition of several connectors**, given in the order of their labels. Without any
connector there is no family. -/
def expositionOf (connectors : Dictionary String Metrics) : String :=
  if connectors.isEmpty then "" else String.join (families.map (familyText connectors))

/-- The text exposition of one connector. -/
def exposition (connector : String) (m : Metrics) : String :=
  expositionOf [(connector, m)]

end Metrics

/-! ### Several connectors -/

/-- The metrics of several connectors. Those of one name are exposed through the first of them. -/
structure MetricsBoard where
  /-- The values of each connector, in the order in which they were added. -/
  series : List Metrics := []
  /-- The number of the exposed series of each name. -/
  exposed : Dictionary String Nat := []
  deriving DecidableEq, Repr

namespace MetricsBoard

/-- Adds a series that is not exposed. -/
def add (b : MetricsBoard) : MetricsBoard :=
  { b with series := b.series ++ [{}] }

/-- Adds a series and exposes it, unless another of its name is. -/
def register (name : String) (b : MetricsBoard) : MetricsBoard :=
  let exposed :=
    if Dictionary.contains name b.exposed then b.exposed
    else Dictionary.put name b.series.length b.exposed
  { b.add with exposed }

/-- Changes the series of a number. -/
def change (number : Nat) (f : Metrics → Metrics) (b : MetricsBoard) : MetricsBoard :=
  { b with series := b.series.modify number f }

/-- **The text exposition of the exposed series.** -/
def exposition (b : MetricsBoard) : String :=
  Metrics.expositionOf (b.exposed.filterMap fun (name, i) => (b.series[i]?).map (name, ·))

end MetricsBoard

end ChangeCapture
