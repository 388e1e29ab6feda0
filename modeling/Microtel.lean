import Microtel.Lib.Loop
import Microtel.Leaf.Failure
import Microtel.Leaf.BufferInvariant
import Microtel.Leaf.Handles
import Microtel.Lib.Mixer
import Microtel.Leaf.Ids
import Microtel.Leaf.CompactionBytes
import Microtel.Leaf.CompactionExact
import Microtel.Concentrator.TableHistory
import Microtel.Concentrator.Receiver
import Microtel.Pipeline.Wakeups
import Microtel.Pipeline.Flush
import Microtel.Pipeline.MetricReaderRuns
import Microtel.Concentrator.ResourceBudget
import Microtel.Concentrator.ResourceLayers
import Microtel.Concentrator.ReceiverRuns
import Microtel.Concentrator.Agreement
import Microtel.Concentrator.UnknownLeaves
import Microtel.Concentrator.Refusals
import Microtel.Wire.Message
import Microtel.Wire.OtlpEncoder
import Microtel.Wire.OtlpTraceDecoder
import Microtel.Wire.AttributeMapping
import Microtel.Wire.RoundTrip
import Microtel.Sdk.ProviderRegistry
import Microtel.Sdk.ProviderRegistryRuns
import Microtel.Lib.Threads
import Microtel.Wire.ExportTransportChannel
import Microtel.Wire.ExportTransportRuns
import Microtel.Transport.Http2Streams
import Microtel.Transport.Http2Steps
import Microtel.Transport.Http2States
import Microtel.Transport.Http2Tables
import Microtel.Transport.Http2Requests
import Microtel.Transport.Http2Answers
import Microtel.Transport.Http2Cancels
import Microtel.Transport.Http2Payloads
import Microtel.Wire.CodecCalls
import Microtel.Sdk.BatchOptions
import Microtel.Sdk.SdkProvider
import Microtel.Sdk.SpanBudget
import Microtel.Pipeline.Frames
import Microtel.Sdk.SdkProviderSteps
import Microtel.Sdk.Teardown
import Microtel.Sdk.ShutdownOrder
import Microtel.Sdk.Retunes
import Microtel.Concentrator.Accounting
import Microtel.Concentrator.AdmissionRule
import Microtel.Api.TraceState
import Microtel.Api.TraceStateGrammar
import Microtel.Api.TraceStateLaws
import Microtel.Api.Baggage
import Microtel.Api.BaggageLaws
import Microtel.Lib.Offer
import Microtel.Sdk.SpanLimits
import Microtel.Sdk.LimitAgreement
import Microtel.Sdk.AttributeUpdates
import Microtel.Pipeline.LogProcessor
import Microtel.Sdk.QueuePolicy
import Microtel.Metrics.ExpHistogram
import Microtel.Lib.IntBins
import Microtel.Metrics.ExpHistogramLaws
import Microtel.Lib.BinarySearch
import Microtel.Lib.CappedMap
import Microtel.Metrics.AttributeSet
import Microtel.Metrics.Storages
import Microtel.Metrics.Conservation
import Microtel.Metrics.PointTotals
import Microtel.Metrics.Views
import Microtel.Metrics.Monotonic
import Microtel.Metrics.Observable
import Microtel.Metrics.Producer
import Microtel.Lib.Octets
import Microtel.Api.Propagator
import Microtel.Api.PropagatorLaws
import Microtel.Lib.FirstSeen
import Microtel.Pipeline.EnqueueCost
import Microtel.Pipeline.BatchGroups
import Microtel.Lib.Walk
import Microtel.Lib.ProtoWire
import Microtel.Wire.ProtoReader
import Microtel.Wire.OtlpResponse
import Microtel.Wire.HttpWireCodec
import Microtel.Wire.HttpResults
import Microtel.Wire.HttpClassification
import Microtel.Wire.Gzip
import Microtel.Wire.GrpcWireCodec
import Microtel.Wire.GrpcResults
import Microtel.Pipeline.FanOut
import Microtel.Pipeline.RetryEngine
import Microtel.Pipeline.RetryBudget
import Microtel.Lib.Signed64
import Microtel.Wire.RetryInfo
import Microtel.Lib.Base64
import Microtel.Wire.Base64Decoding
import Microtel.Wire.RetryDetails
import Microtel.Pipeline.RetryArithmetic
import Microtel.Lib.Layers
import Microtel.Sdk.ResourceBuilder
import Microtel.Sdk.ResourcePrecedence
import Microtel.Sdk.SamplerTree
import Microtel.Sdk.SamplerWalk
import Microtel.Lib.Sweeps
import Microtel.Sdk.SamplerRetunes
import Microtel.Concentrator.BootAnchor
import Microtel.Sdk.SpanLife
import Microtel.Sdk.Sampling
import Microtel.Sdk.SamplerDecisions
import Microtel.Metrics.Downscaling
import Microtel.Metrics.ExpHistogramInt32
import Microtel.Metrics.AttributeHash
import Microtel.Sdk.EndpointUrl
import Microtel.Sdk.ConfigValidator
import Microtel.Sdk.SignalPaths
import Microtel.Sdk.KeyValueLists
import Microtel.Lib.OutStream
import Microtel.Lib.Overrides
import Microtel.Sdk.HeaderTables
import Microtel.Lib.LeadCode
import Microtel.Sdk.ValueTruncation
import Microtel.Lib.Decimal
import Microtel.Sdk.ResourceLog
import Microtel.Sdk.ResourceLogEscapes
import Microtel.Sdk.ResourceLogBoundaries
import Microtel.Lib.Projection
import Microtel.Transport.Http2Responses
import Microtel.Wire.InflateLoop
import Microtel.Leaf.ClockLog
import Microtel.Leaf.Readings
import Microtel.Leaf.PbEncode
import Microtel.Wire.LeafMessage
import Microtel.Wire.RequestText
import Microtel.Leaf.BackendNanopb
import Microtel.Leaf.EncodedSize
import Microtel.Lib.Requests
import Microtel.Lib.BackBuffer
import Microtel.Wire.UpbEncode
import Microtel.Wire.UpbMessages
import Microtel.Leaf.BackendUpb
import Microtel.Concentrator.ClampedTime
import Microtel.Lib.SelfDelimiting
import Microtel.Concentrator.DeclaredBytes
import Microtel.Concentrator.LeafPayloads
import Microtel.Concentrator.LeafTimes
