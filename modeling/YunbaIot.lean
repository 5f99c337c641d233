import YunbaIot.Base128
import YunbaIot.BigEndian
import YunbaIot.Memory
import YunbaIot.MqttPacket
import YunbaIot.MqttDeserialize
import YunbaIot.PublishGrammar
import YunbaIot.FreeRtosTimer
import YunbaIot.MqttSerialize
import YunbaIot.MqttTransport
import YunbaIot.MqttClient
import YunbaIot.MqttSend
import YunbaIot.Framing
import YunbaIot.MqttRead
import YunbaIot.MqttEffects
import YunbaIot.Run
import YunbaIot.SplitReads
import YunbaIot.Incoming
import YunbaIot.Delivery
import YunbaIot.AckLaw
import YunbaIot.Session
import YunbaIot.SendCalls
import YunbaIot.LinkInvariant
import YunbaIot.FreeRtosSocket
import YunbaIot.Reconnect
import YunbaIot.ConnectFirst
import YunbaIot.ControlPacket
import YunbaIot.SelfFraming
import YunbaIot.MqttServer
import YunbaIot.PublishRoundTrip
import YunbaIot.TopicRoundTrip
import YunbaIot.GuardedWrites
import YunbaIot.GrantRoundTrip
import YunbaIot.ConnectRoundTrip
import YunbaIot.MqttReadnb
import YunbaIot.Schedule
import YunbaIot.Polling
import YunbaIot.NonblockingRead
import YunbaIot.Outage
import YunbaIot.OutageRun
import YunbaIot.DhcpServer
import YunbaIot.LeaseTable
import YunbaIot.NetworkOrder
import YunbaIot.LeaseRange
import YunbaIot.LeasePool
import YunbaIot.DhcpIntake
import YunbaIot.AckGrammar
import YunbaIot.ListFilling
import YunbaIot.MalformedLength
import YunbaIot.ExtcmdIntake
import YunbaIot.ConnectGrammar
import YunbaIot.StringWriting
import YunbaIot.PacketLength
import YunbaIot.WaitFor
import YunbaIot.UnsubscribeAnswer
import YunbaIot.Block
import YunbaIot.CJson
import YunbaIot.CJsonText
import YunbaIot.TimerLaw
import YunbaIot.StartUp
import YunbaIot.TopicMatch
import YunbaIot.BrokerUrl
import YunbaIot.UserPlug
import YunbaIot.KeyPress
import YunbaIot.PacketFormat
import YunbaIot.Publish2
import YunbaIot.Tlv
import YunbaIot.ServerReply
import YunbaIot.MessageArrived
import YunbaIot.UserParameters
import YunbaIot.PlainText
import YunbaIot.LeaseSearch
import YunbaIot.LeaseAgeing
import YunbaIot.OptionArea
import YunbaIot.GenAppbin
import YunbaIot.Segments
import YunbaIot.ImageLayout
import YunbaIot.NorFlash
import YunbaIot.EspSpiffs
import YunbaIot.FlashAdapter
import YunbaIot.MountCycle
import YunbaIot.LightAdj
import YunbaIot.Circular
import YunbaIot.LightCalls
import YunbaIot.LightRing
import YunbaIot.Fading
import YunbaIot.BitField
import YunbaIot.UartDriver
import YunbaIot.UartConf1
import YunbaIot.LengthCodec
import YunbaIot.SocketAccount
import YunbaIot.Arena
import YunbaIot.FreeList
import YunbaIot.Heap4
import YunbaIot.HeapChain
import YunbaIot.HeapInsert
import YunbaIot.HeapArena
import YunbaIot.HeapLend
import YunbaIot.HeapLaws
import YunbaIot.FreeRtosList
import YunbaIot.FreeRtosTasks
import YunbaIot.ListLaws
import YunbaIot.TaskCalls
import YunbaIot.TaskClock
import YunbaIot.TaskHighest
import YunbaIot.TaskLaws
import YunbaIot.Allocation
import YunbaIot.CJsonGrammar
import YunbaIot.CJsonReading
import YunbaIot.CJsonParsing
import YunbaIot.CJsonPrint
import YunbaIot.CJsonRendering
import YunbaIot.CJsonComposing
import YunbaIot.CJsonBlocks
import YunbaIot.CJsonBuffer
import YunbaIot.WholeDouble
import YunbaIot.CJsonNumber
import YunbaIot.CJsonLaws
import YunbaIot.CJsonMinify
import YunbaIot.CJsonStripping
import YunbaIot.CJsonBounds
