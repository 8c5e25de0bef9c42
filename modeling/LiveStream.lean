import LiveStream.Abr.SegmentProgressTheorems
import LiveStream.Server.DashBackend
import LiveStream.Server.DashBackendTheorems
import LiveStream.Server.AbrLoop
import LiveStream.Server.AbrLoopTheorems
import LiveStream.Dash.Stats
import LiveStream.Dash.StatsTheorems
import LiveStream.Dash.RequestPool
import LiveStream.Dash.Interceptor
import LiveStream.Video.ConfigTheorems
import LiveStream.Video.TrackOrder
import LiveStream.Target.Bandwidth
import LiveStream.Target.Family
import LiveStream.Learning.Server
import LiveStream.Cc.Minerva
import LiveStream.Cc.Gap
import LiveStream.Exp.Monitor
import LiveStream.Exp.MonitorTheorems
import LiveStream.Exp.MonitorExceptions
import LiveStream.Lib.Neighbours
import LiveStream.Exp.Stall
import LiveStream.Exp.Plots
import LiveStream.Exp.PlotsTheorems
import LiveStream.Exp.Leader
import LiveStream.Dash.Bypass
import LiveStream.Dash.Delivery
import LiveStream.Learning.Runner
import LiveStream.Target.TargetRate
import LiveStream.Target.Checked
import LiveStream.Lib.Search
import LiveStream.Abr.Tables
import LiveStream.Worthed.Planner
import LiveStream.Worthed.PlannerTheorems
import LiveStream.Abr.InFlight
import LiveStream.Abr.BBAbr
import LiveStream.Worthed.WorthedAbr
import LiveStream.Worthed.InFlightTheorems
import LiveStream.Worthed.Upjumps
import LiveStream.Lib.Window
import LiveStream.Structs.Averages
import LiveStream.Lib.Regression
import LiveStream.Structs.Estimators
import LiveStream.Lib.Double
import LiveStream.Minerva.Normalize
import LiveStream.Lib.Playout
import LiveStream.Minerva.Planner
import LiveStream.Minerva.MinervaAbr
import LiveStream.Minerva.PlannerTheorems
import LiveStream.Minerva.RateWindow
import LiveStream.Minerva.Utility
import LiveStream.Exp.RobustMpc
import LiveStream.Exp.RobustMpcTheorems
import LiveStream.Dash.QualityController
import LiveStream.Dash.Abandon
import LiveStream.Lib.TopDown
import LiveStream.Dash.Getters
import LiveStream.Dash.BB
import LiveStream.Dash.Festive
import LiveStream.Exp.DatasetTheorems
import LiveStream.Lib.Json
import LiveStream.Exp.PlotLog
import LiveStream.Cc.PacingProposals
import LiveStream.Cc.GapCycle
import LiveStream.Target.RemoteAnswer
import LiveStream.Lib.HashTable
import LiveStream.Target.HashTables
import LiveStream.Target.HashContract
import LiveStream.Cc.Bbr
import LiveStream.Lib.Records
import LiveStream.Cc.BbrModes
import LiveStream.Cc.BbrWindows
import LiveStream.Cc.BbrShared
import LiveStream.Cc.BbrBandwidth
import LiveStream.Worthed.Loop
import LiveStream.Cc.MinervaGrowth
import LiveStream.Cc.MinervaWindows
import LiveStream.Cc.MinervaRecovery
import LiveStream.Target.Loop
import LiveStream.Minerva.Loop
