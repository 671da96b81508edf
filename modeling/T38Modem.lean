import T38Modem.HdlcRoundTrip
import T38Modem.SenderExits
import T38Modem.Completion
import T38Modem.SendProgress
import T38Modem.DleEncode
import T38Modem.UdptlRedundancy
import T38Modem.MediaStream
import T38Modem.CallToken
import T38Modem.FrameDelivery
import T38Modem.OwnerSafety
import T38Modem.PoolSafety
import T38Modem.RegisterLaw
import T38Modem.CarrierOff
import T38Modem.CngDetect
import T38Modem.AudioStream
import T38Modem.LossReception
import T38Modem.Repeated
import T38Modem.FaxCarried
import T38Modem.FrameSignal
import T38Modem.DialGrammar
import T38Modem.EcmEnding
import T38Modem.ParserBounds
import T38Modem.FinalResult
import T38Modem.FcsLaws
import T38Modem.ChunkFifo
import T38Modem.PtyQueue
import T38Modem.StreamSafety
import T38Modem.ClockSafety
import T38Modem.RtpLink
