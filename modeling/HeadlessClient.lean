import HeadlessClient.Capture.HelloDecoding
import HeadlessClient.Capture.STUN
import HeadlessClient.Capture.Tls12
import HeadlessClient.Capture.Tls13
import HeadlessClient.DTLS.Captured
import HeadlessClient.DTLS.HelloShape
import HeadlessClient.DTLS.RetryHooks
import HeadlessClient.DTLS.ServerHello
import HeadlessClient.Http1.Framing
import HeadlessClient.Http2.EncodeHeaders
import HeadlessClient.Http3.ControlStream
import HeadlessClient.Quic.Captured
import HeadlessClient.QuicTLS.Isolation
import HeadlessClient.TLS.ClientHelloSpec
import HeadlessClient.Transport.Address
import HeadlessClient.Transport.Decompress
import HeadlessClient.Transport.Http2
import HeadlessClient.Transport.RoundTripBodies
import HeadlessClient.WebRTC.HeaderLists
import HeadlessClient.WebRTC.SdpOrder
import HeadlessClient.WebSocket.Handshake
import HeadlessClient.Wirediff.Grease
import HeadlessClient.Wirediff.Readers
