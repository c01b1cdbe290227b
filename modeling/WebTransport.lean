import WebTransport.BidirectionalStream.Delivery
import WebTransport.H264.RoundTrip
import WebTransport.H264.Receiver
import WebTransport.H264.Reassembly
import WebTransport.H264.Repeats
import WebTransport.H264.Modes
import WebTransport.VP8.RoundTrip
import WebTransport.VP8.Descriptor
import WebTransport.RTP.Encoding
import WebTransport.RTP.Agreement
import WebTransport.RTP.Accepted
import WebTransport.Datagrams.Complete
import WebTransport.Datagrams.Delivery
import WebTransport.Server.Quiet
import WebTransport.Server.MediaStream
import WebTransport.Server.Socket
import WebTransport.Server.Lifetime
import WebTransport.Platform.ReferenceCounted
import WebTransport.Platform.ReferenceCountedPointer
import WebTransport.Platform.URITemplate
import WebTransport.Client.Registration
import WebTransport.Stream.EndOfStream
import WebTransport.Stream.Wakeup
import WebTransport.Connection.RunFlag
import WebTransport.Verify.Policy
import WebTransport.H264.KeyFrame
import WebTransport.H264.Delimiters
import WebTransport.H264.Fragmentation
import WebTransport.H264.ParameterSets
import WebTransport.H264.Tiling
import WebTransport.VP8.Depacketizer
import WebTransport.Stream.Drain
import WebTransport.Interval.Current
import WebTransport.Interval.Spacing
import WebTransport.Verify.Release
