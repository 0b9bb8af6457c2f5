import Timeline.Journal.Record

/-! A logger that may have to wait for its threshold.

Until a threshold is set, records are kept. The first threshold decides about the kept
records and all of them that it wants are printed, in order; from then on each record is
decided by the threshold set last. A ceiling in front of the logger drops records that no
threshold would let through. -/
namespace Timeline.Journal

/-- The line for a record under a threshold, if it is printed. Records of other programs are
printed only from the debug threshold on, and with the place they come from. -/
def Threshold.render (threshold : Threshold) (r : Record) : Option String :=
  if ! r.level.within threshold then none
  else if r.isOwn then some s!"{r.level.label}: {r.message}"
  else if Threshold.debug.rank ≤ threshold.rank then
    some s!"{r.level.label}: [{r.file}:{r.line}] {r.message}"
  else none

inductive Event where
  | record (r : Record)
  | setThreshold (threshold : Threshold)
deriving DecidableEq, Repr

inductive Mode where
  /-- Records wait for the first threshold. -/
  | keeping (records : List Record)
  | printing (threshold : Threshold)
deriving DecidableEq, Repr

structure Logger where
  ceiling : Threshold
  mode : Mode
deriving DecidableEq, Repr

namespace Logger

def initial : Logger := ⟨.trace, .keeping []⟩

/-- The logger after an event, and the lines that the event prints. -/
def step (logger : Logger) : Event → Logger × List String
  | .record r =>
    if r.level.within logger.ceiling then
      match logger.mode with
      | .keeping records => (⟨logger.ceiling, .keeping (records ++ [r])⟩, [])
      | .printing threshold => (logger, (threshold.render r).toList)
    else (logger, [])
  | .setThreshold threshold =>
    let kept :=
      match logger.mode with
      | .keeping records => records
      | .printing _ => []
    (⟨threshold, .printing threshold⟩, kept.filterMap threshold.render)

/-- The logger after some events. -/
def after (logger : Logger) : List Event → Logger
  | [] => logger
  | e :: rest => (logger.step e).1.after rest

/-- The lines that some events print. -/
def lines (logger : Logger) : List Event → List String
  | [] => []
  | e :: rest => (logger.step e).2 ++ (logger.step e).1.lines rest

theorem after_append (logger : Logger) (a b : List Event) :
    logger.after (a ++ b) = (logger.after a).after b := by
  induction a generalizing logger with
  | nil => rfl
  | cons e rest ih => exact ih _

theorem lines_append (logger : Logger) (a b : List Event) :
    logger.lines (a ++ b) = logger.lines a ++ (logger.after a).lines b := by
  induction a generalizing logger with
  | nil => rfl
  | cons e rest ih => simp only [List.cons_append, lines, after, ih, List.append_assoc]

end Logger

end Timeline.Journal
