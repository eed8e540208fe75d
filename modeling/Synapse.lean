import Synapse.Theory.RingView
import Synapse.Theory.Transducer
import Synapse.Theory.TruncDiv
import Synapse.Fixedptc
import Synapse.Click.FixedPt
import Synapse.Click.CircArray
import Synapse.Theory.BoundedDeque
import Synapse.Click.CircArrayDeque
import Synapse.Click.Buffers
import Synapse.Click.BufferRounds
import Synapse.Click.IndicatorBase
import Synapse.Click.WindowElements
import Synapse.Click.ModeAgreement
import Synapse.Click.WindowAgreement
import Synapse.Theory.ForLoop
import Synapse.Trade.MsgParsing
import Synapse.Trade.Decoding
import Synapse.Trade.WireFormat
import Synapse.Theory.KeyMap
import Synapse.Trade.TimeStats
import Synapse.Trade.TradeProcessor
import Synapse.HandCoded.EventLoop
import Synapse.Kernel.Shmq
import Synapse.Theory.ChainTable
import Synapse.HandCoded.AdLine
import Synapse.Click.Ewma
import Synapse.Click.Trix
import Synapse.Click.DirectionalMovement
import Synapse.HandCoded.Indicators
import Synapse.HandCoded.VortexSums
import Synapse.HandCoded.DmiRange
import Synapse.Chix.Utils
import Synapse.Chix.TradeHandler
import Synapse.Chix.Book
import Synapse.TcpProbe.PbFileReader
import Synapse.Click.Pipeline
import Synapse.HandCoded.Program
import Synapse.Comparison.Trix
import Synapse.Theory.StampJoin
import Synapse.Click.SynapseElement
import Synapse.Click.EwmaElement
import Synapse.Click.IndicatorJoin
import Synapse.Theory.LastExtreme
import Synapse.Click.Aroon
import Synapse.Theory.LastBlock
import Synapse.Click.TrueRange
import Synapse.Click.TradeAggregator
import Synapse.Click.RunningStat
import Synapse.Click.MsgFilterSymbol
import Synapse.Theory.FirstExtreme
import Synapse.Click.AroonPrint
import Synapse.Click.AroonElement
import Synapse.Click.DirectionalMovementElement
import Synapse.Click.AroonPrintElement
import Synapse.Theory.BoundedWrite
import Synapse.Click.CyclesCounter
import Synapse.Click.ElementRounds
import Synapse.Click.DmiPipeline
import Synapse.Click.DmiRange
