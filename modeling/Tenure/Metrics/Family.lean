/-!
# Families of metrics

The series of a family measure the same thing under different labels. A family has a name, a
description and a type.
-/

namespace Tenure.Metrics

/-- The families. -/
inductive Family where
  /-- Campaigns by the standing they ended in. -/
  | campaigns
  /-- Whether a contender is leader. -/
  | leader
  /-- Whether publication is suspended. -/
  | paused
  /-- Heartbeats that could not be published. -/
  | publishErrors
  /-- Heartbeats published. -/
  | published
  /-- Whether a subject receives heartbeats. -/
  | subjects
deriving DecidableEq

namespace Family

/-- All families, in the order of their names. -/
def all : List Family := [.campaigns, .leader, .paused, .publishErrors, .published, .subjects]

/-- The name. -/
def name : Family → String
  | .campaigns => "herald_election_campaigns_total"
  | .leader => "herald_election_leader"
  | .paused => "herald_heartbeat_paused"
  | .publishErrors => "herald_heartbeat_publish_errors_total"
  | .published => "herald_heartbeat_published_total"
  | .subjects => "herald_heartbeat_subjects"

/-- The description. -/
def help : Family → String
  | .campaigns => "Leader election campaigns"
  | .leader => "Whether this instance is the elected leader"
  | .paused => "Whether heartbeat publication is paused"
  | .publishErrors => "Heartbeat publish failures"
  | .published => "Heartbeats published"
  | .subjects => "Subjects currently receiving heartbeats"

/-- Whether the numbers only grow. -/
def isCounter : Family → Bool
  | .campaigns | .publishErrors | .published => true
  | .leader | .paused | .subjects => false

end Family

end Tenure.Metrics
