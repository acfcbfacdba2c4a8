import TestDatabase.Lib.EventMachine
import TestDatabase.Link.Alarm
import TestDatabase.Link.Put
import TestDatabase.Link.PutRuns
import TestDatabase.Link.PutThreads
import TestDatabase.Lib.Fallible
import TestDatabase.Link.Monitor
import TestDatabase.Link.MonitorRuns
import TestDatabase.Link.Get
import TestDatabase.Db.Common
import TestDatabase.Db.SimpleBusy
import TestDatabase.Db.AlarmMemory
import TestDatabase.Db.Completion
import TestDatabase.Db.BusyPeriods
import TestDatabase.Db.ForwardLinks
import TestDatabase.Link.ClientObjects
import TestDatabase.Db.DriveLimits
import TestDatabase.Link.MonitorMirror
import TestDatabase.Db.Hysteresis
import TestDatabase.Db.AlarmLevels
import TestDatabase.Clients.TimeMany
import TestDatabase.Link.AlarmHistory
import TestDatabase.Clients.TimeManyMonitor
import TestDatabase.Clients.PutUnion
import TestDatabase.Clients.EventRate
import TestDatabase.Clients.PutTarget
import TestDatabase.Clients.MonitorCommands
import TestDatabase.Clients.WorkerThreads
import TestDatabase.Clients.ChannelNames
import TestDatabase.Clients.StopReturns
import TestDatabase.Clients.PutRounds
import TestDatabase.Clients.PutAnswers
import TestDatabase.Lib.LockedFlag
import TestDatabase.Link.LostChannel
import TestDatabase.Db.LinkedRuns
import TestDatabase.Db.Widening
import TestDatabase.Clients.TimeManyChannel
import TestDatabase.Db.Chatter
import TestDatabase.Db.Posts
import TestDatabase.Clients.PutGet
import TestDatabase.Clients.BlockingPuts
import TestDatabase.Clients.TypedLines
import TestDatabase.Link.PutSections
