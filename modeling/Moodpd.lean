import Moodpd.Memory
import Moodpd.HexText
import Moodpd.Transducer
import Moodpd.NonblockWriter
import Moodpd.OscMessage
import Moodpd.OscPacket
import Moodpd.OscGrammar
import Moodpd.OscMessageRefinement
import Moodpd.OscPacketRefinement
import Moodpd.OscMalformed
import Moodpd.OscPattern
import Moodpd.OscArgReader
import Moodpd.Chomp
import Moodpd.Daemon
import Moodpd.LampView
import Moodpd.OscView
import Moodpd.DaemonRuns
import Moodpd.Delivery
import Moodpd.RawGate
import Moodpd.LogMask
import Moodpd.CommandPort
import Moodpd.LogLevel
import Moodpd.ServedDelivery
import Moodpd.RunEnds
import Moodpd.WireGrammar
import Moodpd.Orientation
import Moodpd.ColorGrammar
import Moodpd.ColorCommands
import Moodpd.FormattedWrites
import Moodpd.MucProtocol
import Moodpd.MucInput
import Moodpd.MucCommands
import Moodpd.Getopt
import Moodpd.CommandLine
import Moodpd.Verbosity
import Moodpd.PrefixCode
import Moodpd.CommandStream
import Moodpd.MucRuns
import Moodpd.Wire
import Moodpd.UdpSocket
import Moodpd.Clients
import Moodpd.Room
import Moodpd.DatagramSafety
import Moodpd.OscRequests
import Moodpd.OscDispatch
import Moodpd.LampSelection
import Moodpd.OscAtomicity
import Moodpd.OscValues
import Moodpd.OscMessageWriter
import Moodpd.OscPacketWriter
import Moodpd.OscDraft
import Moodpd.OscPop
import Moodpd.OscRoundTrip
import Moodpd.PingPong
import Moodpd.PingPongRuns
import Moodpd.Glob
import Moodpd.OscPatternLanguage
import Moodpd.OscPartialMatch
import Moodpd.Delimiter
import Moodpd.Url
