import V2Proxy.Foundations.Cuts
import V2Proxy.Foundations.Runs
import V2Proxy.Util.Ezio
import V2Proxy.Http.LawfulParsers
import V2Proxy.Cloud.CloudResourceList
import V2Proxy.Cloud.Threads
import V2Proxy.Http.V2FilterClient
import V2Proxy.Foundations.Fields
import V2Proxy.Http.RequestedInvocations
import V2Proxy.Http.RequestStream
import V2Proxy.Http.Conservation
import V2Proxy.Http.FilterSegmentation
import V2Proxy.Packet.DroppingPacketQueue
import V2Proxy.Packet.CODELPacketQueue
import V2Proxy.Packet.PIEPacketQueue
import V2Proxy.Packet.AbstractPacketQueue
import V2Proxy.Frontend.LinkQueue
import V2Proxy.Frontend.Link
import V2Proxy.Frontend.Capacity
import V2Proxy.Frontend.WakeUps
import V2Proxy.Foundations.Periodic
import V2Proxy.Frontend.Deliverable
import V2Proxy.Frontend.DeliveryTimes
import V2Proxy.Frontend.TraceRuns
import V2Proxy.Http.V2FilterServer
import V2Proxy.Http.ResponsePairing
import V2Proxy.HttpServer.CannedResponse
import V2Proxy.HttpServer.HTTPProxy
import V2Proxy.HttpServer.BlockedRequests
import V2Proxy.Foundations.Throws
import V2Proxy.Http.ParserFaults
import V2Proxy.HttpServer.QueueGuards
import V2Proxy.HttpServer.Transparency
import V2Proxy.HttpServer.ResponsesInTurn
import V2Proxy.Http.GrantedInvocations
import V2Proxy.Http.CountRewriting
import V2Proxy.Http.InstanceIds
import V2Proxy.Http.ServerSegmentation
import V2Proxy.Frontend.ModDeepcgi
import V2Proxy.Frontend.Replayserver
import V2Proxy.Util.ChildProcess
import V2Proxy.Util.EventLoop
import V2Proxy.Http.ProducedRequests
import V2Proxy.Http.RequestGrammar
import V2Proxy.Http.Forwarding
import V2Proxy.Http.ResponseStream
import V2Proxy.Http.InformationalResponses
import V2Proxy.Packet.DropHeadLimits
import V2Proxy.Util.Numerals
import V2Proxy.Http.ChunkSizes
import V2Proxy.Http.ContentLength
import V2Proxy.Http.ChunkedReads
import V2Proxy.Http.ChunkFraming
import V2Proxy.Http.ChunkedBodies
import V2Proxy.Http.ParserAssertions
import V2Proxy.Http.IdAssignment
import V2Proxy.Http.RewrittenFraming
import V2Proxy.Foundations.Ring
import V2Proxy.Util.BytestreamQueue
import V2Proxy.Frontend.DelayQueue
import V2Proxy.Frontend.PollTimeouts
import V2Proxy.Frontend.TraceValues
import V2Proxy.Frontend.EventLog
import V2Proxy.Packet.QueueLimits
import V2Proxy.Packet.CODELCalls
import V2Proxy.Packet.CODELCounts
import V2Proxy.Packet.PIECatchUp
import V2Proxy.Packet.PIEController
import V2Proxy.Foundations.Timers
import V2Proxy.Packet.PIETimer
import V2Proxy.Http.Tokens
import V2Proxy.Packet.QueueArgs
import V2Proxy.Foundations.Best
import V2Proxy.Frontend.BestMatch
import V2Proxy.Scripts.Perl
import V2Proxy.Scripts.RateToEvents
import V2Proxy.Foundations.Waiting
import V2Proxy.Scripts.GraphLog
import V2Proxy.Scripts.SignalDelay
import V2Proxy.Util.Poller
import V2Proxy.Frontend.Ferries
import V2Proxy.HttpServer.PolledProxy
import V2Proxy.Util.DNSProxy
import V2Proxy.Frontend.LossQueue
import V2Proxy.Frontend.RecordReplay
import V2Proxy.Frontend.LinkLog
import V2Proxy.Frontend.LoggedDelays
import V2Proxy.Frontend.Replayshell
import V2Proxy.Util.Interfaces
import V2Proxy.Http.ForwardedResponses
import V2Proxy.HttpServer.BothEnds
import V2Proxy.Frontend.PassingQueues
import V2Proxy.HttpServer.ClientSegmentation
